import OneBit.Proofs.TapeReach

namespace OneBit

def Program.tape (program : Program) (filled : program ≠ []) (fits : program.length ≤ tapeCapacity) : Tape where
  code := program.toArray
  nonempty := List.length_pos_iff.mpr filled
  fits := fits

theorem Program.size_tape (program : Program) (filled : program ≠ []) (fits : program.length ≤ tapeCapacity) :
    (program.tape filled fits).size = program.length := rfl

theorem Tape.ofProgram?_of_fits {program : Program} (filled : program ≠ [])
    (fits : program.length ≤ tapeCapacity) : Tape.ofProgram? program = .ok (program.tape filled fits) := by
  have nonempty : 0 < program.toArray.size := List.length_pos_iff.mpr filled
  have small : program.toArray.size ≤ tapeCapacity := fits
  rw [Tape.ofProgram?, dif_pos nonempty, dif_pos small]
  rfl

/-- A program without a tape is refused before anything else happens. -/
theorem Emulator.execute_refused {program : Program} {error : RunError}
    (refused : Tape.ofProgram? program = .error error) (limit : Nat) {σ : Type} (source : StateM σ (Option UInt8))
    (e : Emulator) (s : σ) : (e.execute program limit source).run s = ((.error error, e), s) := by
  rw [Emulator.execute, refused]
  rfl

theorem Emulator.executeScripted_refused {program : Program} {error : RunError}
    (refused : Tape.ofProgram? program = .error error) (limit : Nat) (inputs : List UInt8) (e : Emulator) :
    Emulator.executeScripted program limit inputs e = ((.error error, e), inputs) :=
  Emulator.execute_refused refused limit nextScripted e inputs

theorem Emulator.execute_run {program : Program} {tape : Tape} (loaded : Tape.ofProgram? program = .ok tape)
    (limit : Nat) {σ : Type} (source : StateM σ (Option UInt8)) (e : Emulator) (s : σ) :
    (e.execute program limit source).run s =
      match (e.drive tape source (limit - e.steps)).run s with
      | ((stop, last), s') => ((last.ending limit stop, last), s') := by
  rw [Emulator.execute, loaded]
  rfl

theorem Emulator.executeScripted_eq {program : Program} {tape : Tape} (loaded : Tape.ofProgram? program = .ok tape)
    (limit : Nat) (inputs : List UInt8) (e : Emulator) :
    Emulator.executeScripted program limit inputs e =
      match e.driveScripted tape (limit - e.steps) inputs with
      | ((stop, last), unread) => ((last.ending limit stop, last), unread) :=
  Emulator.execute_run loaded limit nextScripted e inputs

variable {tape : Tape}

theorem Emulator.driveScripted_mono {e last : Emulator} {budget larger : Nat} {inputs unread : List UInt8}
    {stop : Stop} (run : e.driveScripted tape budget inputs = ((some stop, last), unread)) (more : budget ≤ larger) :
    e.driveScripted tape larger inputs = ((some stop, last), unread) := by
  rw [← Nat.add_sub_cancel' more, Emulator.driveScripted_add, run]

/-- A run that stops needs a budget of exactly the steps that it takes. -/
theorem Emulator.driveScripted_of_stop {e last : Emulator} {budget : Nat} {inputs unread : List UInt8}
    {stop : Stop} (run : e.driveScripted tape budget inputs = ((some stop, last), unread)) :
    e.steps < last.steps ∧ last.steps ≤ e.steps + budget ∧
      e.driveScripted tape (last.steps - e.steps) inputs = ((some stop, last), unread) := by
  obtain ⟨taken, fetches, before, within, split, reach, ends, left⟩ := TapeStop.of_driveScripted run
  have count := reach.steps_eq
  have final := ends.steps_eq
  refine ⟨by omega, by omega, ?_⟩
  have length : last.steps - e.steps = fetches + 1 := by omega
  rw [length, split, Emulator.driveScripted_after reach]
  cases ends with
  | halted fetch => exact Emulator.driveScripted_halt fetch 0 unread
  | inputsExhausted fetch =>
    rw [left rfl]
    exact Emulator.driveScripted_request_nil fetch 0

theorem Emulator.driveScripted_before_stop {e last : Emulator} {budget smaller : Nat} {inputs unread : List UInt8}
    {stop : Stop} (run : e.driveScripted tape budget inputs = ((some stop, last), unread))
    (early : e.steps + smaller < last.steps) : (e.driveScripted tape smaller inputs).1.1 = none := by
  cases other : e.driveScripted tape smaller inputs with
  | mk ended left =>
    obtain ⟨stopped, last'⟩ := ended
    cases stopped with
    | none => rfl
    | some stop' =>
      have within : smaller ≤ budget := by
        have bound := (Emulator.driveScripted_of_stop run).2.1
        omega
      have same := (Emulator.driveScripted_mono other within).symm.trans run
      have bound := (Emulator.driveScripted_of_stop other).2.1
      cases same
      omega

/-- A program that fits the reader has one of two runs under a limit. Either the run has an outcome within the
limit: then it has the same outcome, and takes the same inputs, under exactly the limits that are no smaller
than its steps. Or the limit was spent on as many fetches: then what is left behind can be executed further
under a larger limit, and ends as a run from the beginning does. -/
theorem run_outcome_or_limit (program : Program) (filled : program ≠ []) (fits : program.length ≤ tapeCapacity)
    (inputs : List UInt8) (limit : Nat) :
    (∃ outcome last unread,
      Emulator.executeScripted program limit inputs {} = ((.ok outcome, last), unread) ∧
      1 ≤ outcome.steps ∧ outcome.steps ≤ limit ∧
      (∀ other, outcome.steps ≤ other →
        Emulator.executeScripted program other inputs {} = ((.ok outcome, last), unread)) ∧
      ∀ other, other < outcome.steps → run program inputs other = .error (.stepLimitExceeded other)) ∨
    ∃ taken last unread,
      Emulator.executeScripted program limit inputs {} = ((.error (.stepLimitExceeded limit), last), unread) ∧
      inputs = taken ++ unread ∧ TapeReach (program.tape filled fits) {} taken limit last ∧
      last.steps = limit ∧
      ∀ other, limit ≤ other → Emulator.executeScripted program other unread last =
        Emulator.executeScripted program other inputs {} := by
  have loaded := Tape.ofProgram?_of_fits filled fits
  have fresh := fun other => Emulator.executeScripted_eq loaded other inputs {}
  have zero : ({} : Emulator).steps = 0 := rfl
  simp only [Nat.sub_zero] at fresh
  cases driven : ({} : Emulator).driveScripted (program.tape filled fits) limit inputs with
  | mk ended unread =>
    obtain ⟨stop, last⟩ := ended
    cases stop with
    | some stop =>
      obtain ⟨positive, within, exact⟩ := Emulator.driveScripted_of_stop driven
      rw [zero] at positive within exact
      rw [Nat.zero_add] at within
      refine Or.inl ⟨⟨stop, last.steps, last.machine⟩, last, unread, ?_, positive, within, ?_, ?_⟩
      · rw [fresh, driven]
        rfl
      · intro other enough
        rw [fresh, Emulator.driveScripted_mono exact enough]
        rfl
      · intro other small
        rw [← Nat.zero_add other] at small
        have goes := Emulator.driveScripted_before_stop driven small
        cases early : ({} : Emulator).driveScripted (program.tape filled fits) other inputs with
        | mk ended' unread' =>
          obtain ⟨stop', last'⟩ := ended'
          rw [early] at goes
          cases goes
          rw [run, fresh, early]
          rfl
    | none =>
      obtain ⟨taken, split, reach⟩ := TapeReach.of_driveScripted driven
      have spent : last.steps = limit := by
        rw [reach.steps_eq, zero, Nat.zero_add]
      refine Or.inr ⟨taken, last, unread, ?_, split, reach, spent, ?_⟩
      · rw [fresh, driven]
        rfl
      · intro other larger
        rw [fresh, Emulator.executeScripted_eq loaded, spent, ← Nat.add_sub_cancel' larger,
          Emulator.driveScripted_add, driven, Nat.add_sub_cancel_left]

/-- A tape that asks for inputs once and halts after the third fetch. Two fetches are too few for it. -/
theorem run_request_then_halt :
    let program := Program.decode [0xF0, 0x10, 0xF0]
    program ≠ [] ∧ program.length ≤ tapeCapacity ∧
      ∃ outcome, outcome.steps = 3 ∧ outcome.stop = .halted ∧
        (∀ other, 3 ≤ other → run program [5] other = .ok outcome) ∧
        ∀ other, other < 3 → run program [5] other = .error (.stepLimitExceeded other) := by
  have filled : Program.decode [0xF0, 0x10, 0xF0] ≠ [] := by decide
  have fits : (Program.decode [0xF0, 0x10, 0xF0]).length ≤ tapeCapacity := by decide
  have halts : (run (Program.decode [0xF0, 0x10, 0xF0]) [5] 3).map (fun o => (o.stop, o.steps)) = .ok (.halted, 3) :=
    rfl
  refine ⟨filled, fits, ?_⟩
  rcases run_outcome_or_limit _ filled fits [5] 3 with
    ⟨outcome, last, unread, ends, -, -, enough, few⟩ | ⟨taken, last, unread, ends, -⟩
  · rw [run, ends, Except.map, Except.ok.injEq, Prod.mk.injEq] at halts
    obtain ⟨stop, steps⟩ := halts
    rw [steps] at enough few
    refine ⟨outcome, steps, stop, ?_, few⟩
    intro other larger
    rw [run, enough other larger]
  · rw [run, ends] at halts
    cases halts

end OneBit
