import OneBit.Proofs.InputRequests

namespace OneBit

/-- The last instruction is `NOPF`, and the one before it, if there is one, skips nothing. -/
structure Program.EndsInHalt (program : Program) : Prop where
  last : ∃ i, program.getLast? = some i ∧ i.opcode = .nopf
  before : ∀ i, program.dropLast.getLast? = some i → i.opcode ≠ .rtn ∧ i.opcode ≠ .skz

/-- The instruction at a position is `NOPF`, be it the last one or not. -/
def Program.isNopf (program : Program) (position : Nat) : Bool := program[position]?.any (·.opcode == .nopf)

/-- On the first way around the tape, the instruction at a position is a `NOPF` and is not skipped. -/
def executesNopf (program : Program) (inputs : List UInt8) (position : Nat) : Bool :=
  program.isNopf position && !(stateAfter program nextScripted inputs position).machine.skip

/-- How many instructions before the last one are `NOPF` and are not skipped on the first way around the tape. -/
def requestsInPass (program : Program) (inputs : List UInt8) : Nat :=
  (List.range (program.length - 1)).countP (executesNopf program inputs)

section Pass

variable {program : Program} {filled : program ≠ []} {fits : program.length ≤ tapeCapacity} {limit : Nat}
  {past : List Emulator} {e : Emulator}

theorem Program.EndsInHalt.ne_nil (ends : program.EndsInHalt) : program ≠ [] := by
  obtain ⟨i, last, -⟩ := ends.last
  rintro rfl
  cases last

/-- Before the last position of the first way around, the skip flag is clear. -/
theorem Program.EndsInHalt.skip_clear (ends : program.EndsInHalt)
    (history : TapeHistory (program.tape filled fits) limit past e) (final : e.steps + 1 = program.length) :
    e.machine.skip = false := by
  apply history.skip_clear
  intro before i latest here
  obtain ⟨-, -, count⟩ := history.earlier latest
  have neighbours := history.position_behind latest
  rw [history.position_eq, Program.size_tape, Nat.mod_eq_of_lt (by omega)] at neighbours
  have position : before.position = program.dropLast.length - 1 := by
    rw [List.length_dropLast]
    omega
  apply ends.before
  rw [List.getLast?_eq_getElem?, ← position, List.getElem?_dropLast, if_pos (by omega)]
  exact here

/-- At the last position of the first way around, the run halts. -/
theorem Program.EndsInHalt.fetch_last (ends : program.EndsInHalt)
    (history : TapeHistory (program.tape filled fits) limit past e) (final : e.steps + 1 = program.length) :
    ∃ last, e.fetch (program.tape filled fits) = .halt last := by
  have clear := ends.skip_clear history final
  have position : e.position = program.length - 1 := by
    rw [history.position_eq, Program.size_tape, Nat.mod_eq_of_lt (by omega)]
    omega
  have nopf : ((program.tape filled fits).instructionAt e.position).opcode = .nopf := by
    obtain ⟨i, last, nopf⟩ := ends.last
    have here := history.instruction
    rw [position, ← List.getLast?_eq_getElem?, last, Option.some.injEq, ← position] at here
    rwa [← here]
  have around : (e.position + 1) % (program.tape filled fits).size = 0 := by
    rw [position, Program.size_tape, Nat.sub_add_cancel (by omega), Nat.mod_self]
  have reason := e.fetch_cases (program.tape filled fits)
  generalize e.fetch (program.tape filled fits) = f at reason
  cases reason with
  | skipped skip => rw [clear] at skip; cases skip
  | halted => exact ⟨_, rfl⟩
  | requested _ _ inner => exact absurd around inner
  | executed _ ordinary => exact absurd nopf ordinary

/-- On the first way around the tape, exactly its last fetch halts. -/
theorem Program.EndsInHalt.fetch_halts_iff (ends : program.EndsInHalt)
    (history : TapeHistory (program.tape filled fits) limit past e) (inside : e.steps < program.length) :
    (∃ last, e.fetch (program.tape filled fits) = .halt last) ↔ e.steps + 1 = program.length := by
  constructor
  · rintro ⟨last, fetch⟩
    have reason := e.fetch_cases (program.tape filled fits)
    rw [fetch] at reason
    cases reason with
    | halted _ _ around =>
      rw [history.position_eq, Program.size_tape, Nat.mod_eq_of_lt inside] at around
      by_contra apart
      rw [Nat.mod_eq_of_lt (by omega)] at around
      omega
  · exact ends.fetch_last history

/-- A run halts where the first way around the tape ends, and otherwise stays before it. -/
theorem Program.EndsInHalt.one_pass (ends : program.EndsInHalt) {σ : Type} {source : StateM σ (Option UInt8)} {s t : σ}
    {stop : Option Stop} (run : TapeRun (program.tape filled fits) source s past stop e t) :
    (stop = some .halted → e.steps = program.length) ∧ (stop ≠ some .halted → e.steps < program.length) := by
  -- A fetch that does not halt is not the last one, so the state behind it is still on the first way around.
  have further : ∀ {past : List Emulator} {e : Emulator} {t : σ} {f : Fetch},
      TapeRun (program.tape filled fits) source s past none e t → e.steps < program.length →
      e.fetch (program.tape filled fits) = f → (∀ last, f ≠ .halt last) → f.emulator.steps < program.length := by
    intro past e t f run inside fetch goes
    have count : f.emulator.steps = e.steps + 1 := Emulator.steps_of_fetch (by rw [fetch])
    have inner : e.steps + 1 ≠ program.length := by
      intro final
      obtain ⟨last, halts⟩ := (ends.fetch_halts_iff (run.history (Nat.le_refl _)) inside).mpr final
      exact goes last (fetch.symm.trans halts)
    omega
  induction run with
  | new => exact ⟨fun other => (nomatch other), fun _ => List.length_pos_iff.mpr filled⟩
  | @went past e next t run fetch ih =>
    have inside := ih.2 (fun other => nomatch other)
    exact ⟨fun other => (nomatch other), fun _ => further run inside fetch (fun last other => nomatch other)⟩
  | @answered past e next t t' bits run fetch asked ih =>
    have inside := ih.2 (fun other => nomatch other)
    exact ⟨fun other => (nomatch other), fun _ => further run inside fetch (fun last other => nomatch other)⟩
  | @unanswered past e last t t' run fetch asked ih =>
    have inside := ih.2 (fun other => nomatch other)
    exact ⟨fun other => (nomatch other), fun _ => further run inside fetch (fun last other => nomatch other)⟩
  | @halted past e last t run fetch ih =>
    have inside := ih.2 (fun other => nomatch other)
    have count : last.steps = e.steps + 1 := Emulator.steps_of_fetch (by rw [fetch, Fetch.emulator])
    have final := (ends.fetch_halts_iff (run.history (Nat.le_refl _)) inside).mp ⟨last, fetch⟩
    exact ⟨fun _ => count.trans final, fun other => absurd rfl other⟩

end Pass

section Requests

variable {program : Program} {filled : program ≠ []} {fits : program.length ≤ tapeCapacity} {inputs : List UInt8}

/-- The state that fetches at a position on the first way around asks for inputs if the position is not the last one and
its instruction is a `NOPF` that is not skipped. -/
theorem requestsInputs_in_pass (loaded : Tape.ofProgram? program = .ok (program.tape filled fits)) {fetches limit : Nat}
    (further : fetches < (stateAfter program nextScripted inputs limit).steps) (inside : fetches < program.length) :
    (stateAfter program nextScripted inputs fetches).requestsInputs program =
      (executesNopf program inputs fetches && fetches + 1 != program.length) := by
  obtain ⟨unread, driven⟩ := exists_drive_before loaded further
  have count := (tapeRun_of_drive loaded driven).2.2 rfl
  have position := (tapeHistory_of_run loaded nextScripted inputs fetches).position_eq
  rw [count, Program.size_tape, Nat.mod_eq_of_lt inside] at position
  rw [Emulator.requestsInputs, executesNopf, Program.isNopf, position]
  cases program[fetches]? with
  | none => rfl
  | some i => simp only [Option.any_some]

theorem requestsWithin_in_pass (loaded : Tape.ofProgram? program = .ok (program.tape filled fits)) {limit : Nat}
    (within : (stateAfter program nextScripted inputs limit).steps ≤ program.length) :
    requestsWithin program inputs limit = (List.range (stateAfter program nextScripted inputs limit).steps).countP
      fun position => executesNopf program inputs position && position + 1 != program.length := by
  rw [requestsWithin, fetchedStates, List.countP_map]
  apply List.countP_congr
  intro fetches before
  rw [List.mem_range] at before
  rw [Function.comp_apply, requestsInputs_in_pass loaded before (by omega)]

theorem requestsInPass_eq (filled : program ≠ []) (inputs : List UInt8) :
    requestsInPass program inputs = (List.range program.length).countP
      fun position => executesNopf program inputs position && position + 1 != program.length := by
  obtain ⟨earlier, length⟩ : ∃ earlier, program.length = earlier + 1 :=
    Nat.exists_eq_add_one.mpr (List.length_pos_iff.mpr filled)
  rw [requestsInPass, length, Nat.add_sub_cancel, List.range_succ, List.countP_append, List.countP_singleton]
  simp only [bne_self_eq_false, Bool.and_false, Bool.false_eq_true, if_false, Nat.add_zero]
  apply List.countP_congr
  intro position before
  have inner : position + 1 ≠ earlier + 1 := by
    rw [List.mem_range] at before
    omega
  simp only [bne_iff_ne.mpr inner, Bool.and_true]

/-- The requests of a run that stays within the first way around, and those of the whole way if it comes to its end. -/
theorem requestsWithin_of_pass (loaded : Tape.ofProgram? program = .ok (program.tape filled fits)) {limit : Nat}
    (within : (stateAfter program nextScripted inputs limit).steps ≤ program.length) :
    requestsWithin program inputs limit ≤ requestsInPass program inputs ∧
      ((stateAfter program nextScripted inputs limit).steps = program.length →
        requestsWithin program inputs limit = requestsInPass program inputs) := by
  rw [requestsWithin_in_pass loaded within, requestsInPass_eq filled]
  constructor
  · exact List.Sublist.countP_le (List.range_sublist.mpr within)
  · intro whole
    rw [whole]

/-- Requests come from instructions before the last one that are `NOPF`. -/
theorem requestsInPass_le (program : Program) (inputs : List UInt8) :
    requestsInPass program inputs ≤ program.dropLast.countP (·.opcode == .nopf) := by
  have entries : program.dropLast.map some = (List.range (program.length - 1)).map (program[·]?) := by
    apply List.ext_getElem
    · rw [List.length_map, List.length_map, List.length_dropLast, List.length_range]
    · intro position inside _
      rw [List.length_map, List.length_dropLast] at inside
      rw [List.getElem_map, List.getElem_map, List.getElem_dropLast, List.getElem_range,
        List.getElem?_eq_getElem (by omega)]
  calc requestsInPass program inputs
      ≤ (List.range (program.length - 1)).countP program.isNopf := by
        apply List.countP_mono_left
        intro position _ executed
        exact (Bool.and_eq_true_iff.mp executed).1
    _ = (program.dropLast.map some).countP (·.any (·.opcode == .nopf)) := by
        rw [entries, List.countP_map]
        rfl
    _ = program.dropLast.countP (·.opcode == .nopf) := by
        rw [List.countP_map]
        rfl

end Requests

/-- If the last instruction of a tape is `NOPF` and the one before it skips nothing, then a run with a limit that allows
for going around the tape once either halts at the end of that, and has taken a value for each `NOPF` before that was not
skipped, or has stopped before for want of inputs. It halts if there is a value for each `NOPF` before the last one. -/
theorem halts_in_one_pass {program : Program} (ends : program.EndsInHalt) (fits : program.length ≤ tapeCapacity)
    (inputs : List UInt8) {limit : Nat} (enough : program.length ≤ limit) :
    ∃ outcome last unread, Emulator.executeScripted program limit inputs {} = ((.ok outcome, last), unread) ∧
      (outcome.stop = .halted ∧ outcome.steps = program.length ∧
          inputs.length = requestsInPass program inputs + unread.length ∧
          unread = inputs.drop (requestsInPass program inputs) ∨
        outcome.stop = .inputsExhausted ∧ outcome.steps < program.length ∧ unread = []) ∧
      (program.dropLast.countP (·.opcode == .nopf) ≤ inputs.length → outcome.stop = .halted) := by
  have filled := ends.ne_nil
  have loaded := Tape.ofProgram?_of_fits filled fits
  obtain ⟨stop, unread, driven⟩ := exists_drive loaded nextScripted inputs program.length
  obtain ⟨run, within, spent⟩ := tapeRun_of_drive loaded driven
  obtain ⟨around, early⟩ := ends.one_pass run
  obtain ⟨most, whole⟩ := requestsWithin_of_pass loaded within
  have served : Served inputs (requestsWithin program inputs program.length) stop _ unread := run.served
  cases stop with
  | none =>
    have inside := early (by decide)
    have budget := spent rfl
    omega
  | some reason =>
    have longer := Emulator.driveScripted_mono driven enough
    generalize stateAfter program nextScripted inputs program.length = e at *
    refine ⟨⟨reason, e.steps, e.machine⟩, e, unread, ?_, ?_, ?_⟩
    · rw [Emulator.executeScripted, Emulator.execute_new loaded, ← Emulator.driveScripted, longer]
      rfl
    · cases reason with
      | halted =>
        have steps := around rfl
        have left := served.unread_eq
        have enough := mt served.missed_iff.mpr (by decide)
        rw [whole steps] at left enough
        refine Or.inl ⟨rfl, steps, ?_, left⟩
        rw [left, List.length_drop]
        omega
      | inputsExhausted =>
        have short := served.missed_iff.mp rfl
        refine Or.inr ⟨rfl, early (by decide), ?_⟩
        rw [served.unread_eq, List.drop_eq_nil_iff]
        exact Nat.le_of_lt short
    · intro plenty
      cases reason with
      | halted => rfl
      | inputsExhausted =>
        have short := served.missed_iff.mp rfl
        have earlier := requestsInPass_le program inputs
        omega

/-- Of three requests before the last instruction one is skipped, and an instruction that would skip the next one is
skipped itself. With one value the run stops at the second request. -/
theorem halts_in_one_pass_around_skips :
    let program := Program.decode [0xF0, 0xE0, 0xF0, 0xD0, 0xE0, 0xF0, 0x40, 0xF0]
    program.EndsInHalt ∧ program.length ≤ tapeCapacity ∧ program.length ≤ 9 ∧
      (∃ outcome last, Emulator.executeScripted program 9 [1, 2, 3] {} = ((.ok outcome, last), [3]) ∧
        outcome.stop = .halted ∧ outcome.steps = 8) ∧
      ∃ outcome last, Emulator.executeScripted program 9 [1] {} = ((.ok outcome, last), []) ∧
        outcome.stop = .inputsExhausted ∧ outcome.steps < 8 := by
  have ends : Program.EndsInHalt (.decode [0xF0, 0xE0, 0xF0, 0xD0, 0xE0, 0xF0, 0x40, 0xF0]) := by
    refine ⟨⟨_, rfl, rfl⟩, ?_⟩
    intro i second
    cases second
    decide
  have fits : (Program.decode [0xF0, 0xE0, 0xF0, 0xD0, 0xE0, 0xF0, 0x40, 0xF0]).length ≤ tapeCapacity := by decide
  have enough : (Program.decode [0xF0, 0xE0, 0xF0, 0xD0, 0xE0, 0xF0, 0x40, 0xF0]).length ≤ 9 := by decide
  refine ⟨ends, fits, enough, ?_, ?_⟩
  · obtain ⟨outcome, last, unread, call, cases, plenty⟩ := halts_in_one_pass ends fits [1, 2, 3] enough
    have halted := plenty (by decide)
    rcases cases with ⟨-, steps, -, left⟩ | ⟨missed, -⟩
    · have requests : requestsInPass (.decode [0xF0, 0xE0, 0xF0, 0xD0, 0xE0, 0xF0, 0x40, 0xF0]) [1, 2, 3] = 2 := rfl
      rw [requests] at left
      subst left
      exact ⟨outcome, last, call, halted, steps⟩
    · rw [halted] at missed
      cases missed
  · obtain ⟨outcome, last, unread, call, cases, -⟩ := halts_in_one_pass ends fits [1] enough
    have requests : requestsInPass (.decode [0xF0, 0xE0, 0xF0, 0xD0, 0xE0, 0xF0, 0x40, 0xF0]) [1] = 2 := rfl
    rcases cases with ⟨-, -, length, -⟩ | ⟨missed, steps, rfl⟩
    · rw [requests, List.length_singleton] at length
      omega
    · exact ⟨outcome, last, call, missed, steps⟩

end OneBit
