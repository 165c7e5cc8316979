import Mathlib.Data.List.Chain
import OneBit.Proofs.MachineStep
import OneBit.Proofs.StepBudget

namespace OneBit

/-- One fetch. If it is a request, it may be answered or not. -/
inductive Emulator.StepsTo (tape : Tape) (e : Emulator) : Emulator → Prop
  | fetched : StepsTo tape e (e.fetch tape).emulator
  | answered {next bits} : e.fetch tape = .request next → StepsTo tape e (next.answer bits)

/-- The states of an emulator between fetches, from its first call on, with the states from which instructions
were fetched until then. Between two calls nothing is fetched, so the history does not show where one call ended
and the next one began. -/
inductive TapeHistory (tape : Tape) (limit : Nat) : List Emulator → Emulator → Prop
  | new : TapeHistory tape limit [] {}
  | step {past e next} : TapeHistory tape limit past e → e.steps < limit → e.StepsTo tape next →
      TapeHistory tape limit (past ++ [e]) next

variable {tape : Tape} {limit : Nat}

theorem Emulator.StepsTo.steps {e next : Emulator} (step : e.StepsTo tape next) : next.steps = e.steps + 1 := by
  cases step with
  | fetched => exact e.fetch_steps tape
  | @answered next bits fetch =>
    have counted := e.fetch_steps tape
    rw [fetch] at counted
    exact counted

theorem Emulator.StepsTo.position {e next : Emulator} (step : e.StepsTo tape next) :
    next.position = (e.position + 1) % tape.size := by
  cases step with
  | fetched => exact e.fetch_position tape
  | @answered next bits fetch =>
    have moved := e.fetch_position tape
    rw [fetch] at moved
    exact moved

/-- What a step makes of the registers, and why. A `NOPF` that is not skipped changes nothing but the inputs, and
these only if it is answered. -/
inductive Emulator.StepCase (tape : Tape) (e : Emulator) : Machine → Prop
  | skipped : e.machine.skip = true → StepCase tape e { e.machine with skip := false }
  | executed : e.machine.skip = false → (tape.instructionAt e.position).opcode ≠ .nopf →
      StepCase tape e (e.machine.step (tape.instructionAt e.position))
  | waited : e.machine.skip = false → (tape.instructionAt e.position).opcode = .nopf → StepCase tape e e.machine
  | answered {bits} : e.machine.skip = false → (tape.instructionAt e.position).opcode = .nopf →
      StepCase tape e (e.machine.loadInputs bits)

theorem Emulator.StepsTo.cases {e next : Emulator} (step : e.StepsTo tape next) : e.StepCase tape next.machine := by
  have reason := e.fetch_cases tape
  cases step with
  | fetched =>
    generalize e.fetch tape = f at reason
    cases reason with
    | skipped skip => exact .skipped skip
    | executed clear ordinary => exact .executed clear ordinary
    | halted clear final around | requested clear final around => exact .waited clear final
  | @answered next bits fetch =>
    rw [fetch] at reason
    cases reason with
    | requested clear final around => exact .answered clear final

theorem Emulator.StepsTo.skip_iff {e next : Emulator} (step : e.StepsTo tape next) :
    next.machine.skip = true ↔ e.SkipsNext tape := by
  unfold Emulator.SkipsNext
  have reason := step.cases
  generalize next.machine = m at reason ⊢
  cases reason with
  | skipped skip => simp only [skip, Bool.false_eq_true, reduceCtorEq, false_and]
  | executed clear ordinary =>
    rw [e.machine.step_skip _ clear]
    simp only [clear, true_and]
  | waited clear final | answered clear final =>
    simp only [Machine.loadInputs, clear, final, Bool.false_eq_true, reduceCtorEq, false_and, or_false, and_false]

theorem Emulator.StepsTo.first_input {e next : Emulator} (step : e.StepsTo tape next) (zero : 0 < 8) :
    next.machine.inputs.get ⟨0, zero⟩ = e.machine.inputs.get ⟨0, zero⟩ := by
  have reason := step.cases
  generalize next.machine = m at reason ⊢
  cases reason with
  | skipped skip | waited clear final => rfl
  | executed clear ordinary => rw [Machine.step_inputs]
  | @answered bits clear final => exact e.machine.get_loadInputs bits ⟨0, zero⟩

theorem TapeHistory.length_past {past : List Emulator} {e : Emulator} (history : TapeHistory tape limit past e) :
    past.length = e.steps := by
  induction history with
  | new => rfl
  | step _ _ step ih => rw [List.length_append, List.length_singleton, ih, step.steps]

theorem TapeHistory.steps_le {past : List Emulator} {e : Emulator} (history : TapeHistory tape limit past e) :
    e.steps ≤ limit := by
  cases history with
  | new => exact Nat.zero_le limit
  | step _ within step => rw [step.steps]; exact within

theorem TapeHistory.mono {larger : Nat} {past : List Emulator} {e : Emulator} (history : TapeHistory tape limit past e)
    (more : limit ≤ larger) : TapeHistory tape larger past e := by
  induction history with
  | new => exact .new
  | step _ room step ih => exact ih.step (by omega) step

theorem TapeHistory.position_eq {past : List Emulator} {e : Emulator} (history : TapeHistory tape limit past e) :
    e.position = e.steps % tape.size := by
  induction history with
  | new => exact (Nat.zero_mod tape.size).symm
  | step _ _ step ih => rw [step.position, step.steps, ih, Nat.mod_add_mod]

theorem TapeHistory.first_input {past : List Emulator} {e : Emulator} (history : TapeHistory tape limit past e)
    (zero : 0 < 8) : e.machine.inputs.get ⟨0, zero⟩ = false := by
  induction history with
  | new => rfl
  | step _ _ step ih => rw [step.first_input, ih]

theorem TapeHistory.skip_iff {past : List Emulator} {e : Emulator} (history : TapeHistory tape limit past e) :
    e.machine.skip = true ↔ ∃ before, past.getLast? = some before ∧ before.SkipsNext tape := by
  cases history with
  | new => simp
  | step _ _ step => simp [step.skip_iff]

theorem TapeHistory.earlier {past : List Emulator} {before e : Emulator}
    (history : TapeHistory tape limit past e) (last : past.getLast? = some before) :
    ∃ older, TapeHistory tape limit older before ∧ before.steps + 1 = e.steps := by
  cases history with
  | new => simp at last
  | @step older before' e history within step =>
    rw [List.getLast?_concat, Option.some.injEq] at last
    subst last
    exact ⟨older, history, step.steps.symm⟩

/-- What holds between the two states of every fetch holds between all neighbours in a history. -/
theorem TapeHistory.isChain {past : List Emulator} {e : Emulator} {related : Emulator → Emulator → Prop}
    (history : TapeHistory tape limit past e)
    (steps : ∀ {past e next}, TapeHistory tape limit past e → e.StepsTo tape next → related e next) :
    (past ++ [e]).IsChain related := by
  induction history with
  | new => exact .singleton _
  | @step past e next history within step ih =>
    refine List.isChain_append.mpr ⟨ih, .singleton _, ?_⟩
    intro before last after first
    rw [List.getLast?_concat, Option.mem_some_iff] at last
    rw [List.head?_singleton, Option.mem_some_iff] at first
    subst last first
    exact steps history step

/-- A skipped instruction sets no flag, so the instruction after it is not skipped. -/
theorem TapeHistory.never_skips_twice {past : List Emulator} {e : Emulator}
    (history : TapeHistory tape limit past e) :
    (past ++ [e]).IsChain fun before after => before.machine.skip = true → after.machine.skip = false := by
  apply history.isChain
  intro past e next _ step skipped
  cases skips : next.machine.skip with
  | false => rfl
  | true =>
    have clear := (step.skip_iff.mp skips).1
    rw [clear] at skipped
    cases skipped

/-- A call extends the history, whatever its source of inputs answers, and if it ends by itself then it does
so at its last fetch. -/
theorem TapeHistory.drive {past : List Emulator} {e : Emulator} (history : TapeHistory tape limit past e)
    {budget : Nat} (within : e.steps + budget ≤ limit) {σ : Type} (source : StateM σ (Option UInt8)) (s : σ)
    {stop : Option Stop} {last : Emulator} {s' : σ}
    (run : (e.drive tape source budget).run s = ((stop, last), s')) :
    ∃ more, TapeHistory tape limit (past ++ more) last ∧ ∀ reason, stop = some reason →
      ∃ before, (past ++ more).getLast? = some before ∧ TapeStop tape before reason last := by
  induction budget generalizing past e s with
  | zero =>
    rw [Emulator.drive_zero] at run
    cases run
    refine ⟨[], ?_, fun reason other => nomatch other⟩
    rwa [List.append_nil]
  | succ budget ih =>
    have room : e.steps < limit := by omega
    -- One fetch belongs to the history, and the rest of the call is left to the induction on the budget.
    have further : ∀ {next : Emulator} {s : σ}, e.StepsTo tape next →
        (next.drive tape source budget).run s = ((stop, last), s') →
        ∃ more, TapeHistory tape limit (past ++ more) last ∧ ∀ reason, stop = some reason →
          ∃ before, (past ++ more).getLast? = some before ∧ TapeStop tape before reason last := by
      intro next s step run
      obtain ⟨more, reached, ends⟩ := ih (history.step room step) (by rw [step.steps]; omega) s run
      rw [List.append_assoc] at reached ends
      exact ⟨[e] ++ more, reached, ends⟩
    have moved : e.StepsTo tape (e.fetch tape).emulator := .fetched
    cases fetch : e.fetch tape with
    | went next =>
      rw [Emulator.drive_went fetch] at run
      rw [fetch] at moved
      exact further moved run
    | halt next =>
      rw [Emulator.drive_halt fetch] at run
      cases run
      rw [fetch] at moved
      refine ⟨[e], history.step room moved, ?_⟩
      rintro reason ⟨⟩
      exact ⟨e, List.getLast?_concat, .halted fetch⟩
    | request next =>
      cases asked : source.run s with
      | mk answer left =>
        cases answer with
        | none =>
          rw [Emulator.drive_unanswered fetch budget asked] at run
          cases run
          rw [fetch] at moved
          refine ⟨[e], history.step room moved, ?_⟩
          rintro reason ⟨⟩
          exact ⟨e, List.getLast?_concat, .inputsExhausted fetch⟩
        | some bits =>
          rw [Emulator.drive_answered fetch budget asked] at run
          exact further (.answered fetch) run

/-- A run stops at a `NOPF` that is not skipped. It halts if the tape is back at its beginning behind it. -/
theorem TapeStop.at_nopf {e last : Emulator} {stop : Stop} (ends : TapeStop tape e stop last) :
    (tape.instructionAt e.position).opcode = .nopf ∧ last.machine.skip = false ∧
      (stop = .halted ↔ last.position = 0) := by
  have reason := e.fetch_cases tape
  cases ends with
  | halted fetch =>
    rw [fetch] at reason
    cases reason with
    | halted clear final around => exact ⟨final, clear, iff_of_true rfl around⟩
  | inputsExhausted fetch =>
    rw [fetch] at reason
    cases reason with
    | requested clear final around => exact ⟨final, clear, iff_of_false (fun other => nomatch other) around⟩

theorem Program.getElem?_mod (program : Program) (filled : program ≠ []) (fits : program.length ≤ tapeCapacity)
    (position : Nat) : program[position % program.length]? =
      some ((program.tape filled fits).instructionAt position) := by
  have inside : position % program.length < program.length := Nat.mod_lt _ (List.length_pos_iff.mpr filled)
  rw [List.getElem?_eq_getElem inside]
  rfl

theorem TapeHistory.instruction {program : Program} {filled : program ≠ []} {fits : program.length ≤ tapeCapacity}
    {past : List Emulator} {e : Emulator} (history : TapeHistory (program.tape filled fits) limit past e) :
    program[e.position]? = some ((program.tape filled fits).instructionAt e.position) := by
  have inside : e.position < program.length := by
    rw [history.position_eq]
    exact Nat.mod_lt _ (List.length_pos_iff.mpr filled)
  have here := program.getElem?_mod filled fits e.position
  rwa [Nat.mod_eq_of_lt inside] at here

/-- Positions follow each other around the tape. -/
theorem TapeHistory.position_behind {program : Program} {filled : program ≠ []} {fits : program.length ≤ tapeCapacity}
    {past : List Emulator} {before e : Emulator} (history : TapeHistory (program.tape filled fits) limit past e)
    (latest : past.getLast? = some before) :
    before.position + 1 = program.length ∧ e.position = 0 ∨
      before.position + 1 < program.length ∧ e.position = before.position + 1 := by
  obtain ⟨older, earlier, count⟩ := history.earlier latest
  have inside : before.position < program.length := (List.getElem?_eq_some_iff.mp earlier.instruction).1
  have moved : e.position = (before.position + 1) % program.length := by
    rw [history.position_eq, earlier.position_eq, Program.size_tape, Nat.mod_add_mod, count]
  by_cases around : before.position + 1 = program.length
  · left
    exact ⟨around, by rw [moved, around, Nat.mod_self]⟩
  · right
    have inner : before.position + 1 < program.length := by omega
    exact ⟨inner, moved.trans (Nat.mod_eq_of_lt inner)⟩

/-- Where a call that ends by itself has come to. -/
theorem TapeHistory.ending {program : Program} {filled : program ≠ []} {fits : program.length ≤ tapeCapacity}
    {past : List Emulator} {before last : Emulator} {stop : Stop}
    (history : TapeHistory (program.tape filled fits) limit past last) (latest : past.getLast? = some before)
    (ends : TapeStop (program.tape filled fits) before stop last) :
    (stop = .halted → last.steps % program.length = 0 ∧ ∃ i, program.getLast? = some i ∧ i.opcode = .nopf) ∧
    (stop = .inputsExhausted → last.steps % program.length ≠ 0 ∧
      ∃ i, program[(last.steps - 1) % program.length]? = some i ∧ i.opcode = .nopf) := by
  obtain ⟨older, earlier, count⟩ := history.earlier latest
  obtain ⟨nopf, -, around⟩ := ends.at_nopf
  have position : last.position = last.steps % program.length := history.position_eq
  have here := earlier.instruction
  constructor
  · intro halted
    have back := around.mp halted
    have whole : last.steps % program.length = 0 := position ▸ back
    -- Only behind its last instruction is the tape back at its beginning.
    have final : before.position = program.length - 1 := by
      have neighbours := history.position_behind latest
      omega
    refine ⟨whole, _, ?_, nopf⟩
    rw [List.getLast?_eq_getElem?, ← final, here]
  · rintro rfl
    have fetched : before.position = (last.steps - 1) % program.length := by
      rw [earlier.position_eq, Program.size_tape, ← count, Nat.add_sub_cancel]
    refine ⟨fun whole => ?_, _, fetched ▸ here, nopf⟩
    exact absurd (around.mpr (position.trans whole)) (by decide)

theorem TapeHistory.skip_iff_program {program : Program} {filled : program ≠ []}
    {fits : program.length ≤ tapeCapacity} {past : List Emulator} {e : Emulator}
    (history : TapeHistory (program.tape filled fits) limit past e) :
    e.machine.skip = true ↔ ∃ before i, past.getLast? = some before ∧ program[before.position]? = some i ∧
      before.machine.skip = false ∧ (i.opcode = .rtn ∨ i.opcode = .skz ∧ before.machine.result = false) := by
  rw [history.skip_iff]
  constructor
  · rintro ⟨before, latest, clear, cause⟩
    obtain ⟨older, earlier, -⟩ := history.earlier latest
    exact ⟨before, _, latest, earlier.instruction, clear, cause⟩
  · rintro ⟨before, i, latest, here, clear, cause⟩
    obtain ⟨older, earlier, -⟩ := history.earlier latest
    rw [earlier.instruction, Option.some.injEq] at here
    subst here
    exact ⟨before, latest, clear, cause⟩

/-- Only `RTN` and `SKZ` make the instruction behind them skipped. -/
theorem TapeHistory.skip_clear {program : Program} {filled : program ≠ []} {fits : program.length ≤ tapeCapacity}
    {past : List Emulator} {e : Emulator} (history : TapeHistory (program.tape filled fits) limit past e)
    (ordinary : ∀ before i, past.getLast? = some before → program[before.position]? = some i →
      i.opcode ≠ .rtn ∧ i.opcode ≠ .skz) : e.machine.skip = false := by
  rw [← Bool.not_eq_true, history.skip_iff_program]
  rintro ⟨before, i, latest, here, -, cause⟩
  obtain ⟨noReturn, noSkip⟩ := ordinary before i latest here
  rcases cause with rtn | ⟨skz, -⟩
  · exact noReturn rtn
  · exact noSkip skz

/-- Every state between two fetches, in any number of calls under one limit, has its position and its count
in step, lies within the limit and has the unused input clear. The next instruction is to be skipped exactly if
the last one was executed and was `RTN`, or `SKZ` on a clear result, so no two successive instructions are
skipped. A call with any source of inputs, cut short after any number of fetches, leaves such a state. If it halts,
it has gone around the whole tape and the last instruction is `NOPF`; if it is out of inputs, it has not, and the
instruction fetched last is `NOPF`. -/
theorem TapeHistory.invariant (program : Program) (filled : program ≠ []) (fits : program.length ≤ tapeCapacity)
    (limit : Nat) {past : List Emulator} {e : Emulator}
    (history : TapeHistory (program.tape filled fits) limit past e) :
    (past.length = e.steps ∧ e.steps ≤ limit ∧ e.position < program.length ∧
      e.position = e.steps % program.length ∧ (∀ zero : 0 < 8, e.machine.inputs.get ⟨0, zero⟩ = false) ∧
      (e.machine.skip = true ↔ ∃ before i, past.getLast? = some before ∧ program[before.position]? = some i ∧
        before.machine.skip = false ∧ (i.opcode = .rtn ∨ i.opcode = .skz ∧ before.machine.result = false)) ∧
      (past ++ [e]).IsChain fun before after => before.machine.skip = true → after.machine.skip = false) ∧
    ∀ {σ : Type} (source : StateM σ (Option UInt8)) (s : σ) (bound : Nat), bound ≤ limit →
      ∃ result last s' more, (e.execute program bound source).run s = ((result, last), s') ∧
        TapeHistory (program.tape filled fits) limit (past ++ more) last ∧
        ∀ outcome, result = .ok outcome →
          outcome.steps = last.steps ∧ outcome.machine = last.machine ∧ outcome.machine.skip = false ∧
          (outcome.stop = .halted →
            outcome.steps % program.length = 0 ∧ ∃ i, program.getLast? = some i ∧ i.opcode = .nopf) ∧
          (outcome.stop = .inputsExhausted →
            outcome.steps % program.length ≠ 0 ∧
              ∃ i, program[(outcome.steps - 1) % program.length]? = some i ∧ i.opcode = .nopf) := by
  have loaded := Tape.ofProgram?_of_fits filled fits
  refine ⟨⟨history.length_past, history.steps_le, ?_, history.position_eq, history.first_input,
    history.skip_iff_program, history.never_skips_twice⟩, ?_⟩
  · exact (List.getElem?_eq_some_iff.mp history.instruction).1
  · intro σ source s bound small
    have within : e.steps + (bound - e.steps) ≤ limit := by
      have room := history.steps_le
      omega
    cases run : (e.drive (program.tape filled fits) source (bound - e.steps)).run s with
    | mk ended s' =>
      obtain ⟨stop, last⟩ := ended
      obtain ⟨more, reached, ends⟩ := history.drive within source s run
      refine ⟨last.ending bound stop, last, s', more, ?_, reached, ?_⟩
      · rw [Emulator.execute_run loaded, run]
      · intro outcome good
        cases stop with
        | none => cases good
        | some reason =>
          cases good
          obtain ⟨before, latest, ends⟩ := ends reason rfl
          exact ⟨rfl, rfl, ends.at_nopf.2.1, reached.ending latest ends⟩

/-- The first call ends at the request of the first instruction, which is not answered. In the second one the
instruction after `RTN` is skipped, and the last instruction halts. -/
theorem history_across_unanswered_request :
    let program := Program.decode [0xF0, 0xD0, 0x10, 0xF0]
    let e : Emulator := { machine := { skip := true }, position := 2, steps := 2 }
    ∃ (filled : program ≠ []) (fits : program.length ≤ tapeCapacity) (before : Emulator) (i : Instruction),
      TapeHistory (program.tape filled fits) 9 [{}, { position := 1, steps := 1 }] e ∧
        e.position = e.steps % 4 ∧ program[before.position]? = some i ∧
        before.machine.skip = false ∧ (i.opcode = .rtn ∨ i.opcode = .skz ∧ before.machine.result = false) ∧
        ∃ outcome, (Emulator.executeScripted program 9 [] e).1.1 = .ok outcome ∧ outcome.stop = .halted ∧
          outcome.steps % 4 = 0 ∧ outcome.machine.skip = false := by
  have filled : Program.decode [0xF0, 0xD0, 0x10, 0xF0] ≠ [] := by decide
  have fits : (Program.decode [0xF0, 0xD0, 0x10, 0xF0]).length ≤ tapeCapacity := by decide
  have first : TapeHistory (Program.tape _ filled fits) 9 [{}] { position := 1, steps := 1 } :=
    TapeHistory.new.step (by decide) .fetched
  have second : TapeHistory (Program.tape _ filled fits) 9 [{}, { position := 1, steps := 1 }]
      { machine := { skip := true }, position := 2, steps := 2 } := first.step (by decide) .fetched
  have halts : (Emulator.executeScripted (Program.decode [0xF0, 0xD0, 0x10, 0xF0]) 9 []
      { machine := { skip := true }, position := 2, steps := 2 }).1.1.map (·.stop) = .ok .halted := rfl
  obtain ⟨⟨-, -, -, position, -, skip, -⟩, calls⟩ := TapeHistory.invariant _ filled fits 9 second
  obtain ⟨result, last, unread, more, run, -, endings⟩ := calls nextScripted [] 9 (Nat.le_refl 9)
  obtain ⟨before, i, -, here, clear, cause⟩ := skip.mp rfl
  refine ⟨filled, fits, before, i, second, position, here, clear, cause, ?_⟩
  rw [Emulator.executeScripted, run] at halts ⊢
  cases result with
  | error error => cases halts
  | ok outcome =>
    rw [Except.map, Except.ok.injEq] at halts
    obtain ⟨-, -, clear, around, -⟩ := endings outcome rfl
    exact ⟨outcome, rfl, halts, (around halts).1, clear⟩

end OneBit
