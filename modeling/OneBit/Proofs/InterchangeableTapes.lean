import OneBit.Proofs.Lockstep
import OneBit.Proofs.RunStates

namespace OneBit

def Opcode.isIdle : Opcode → Bool
  | .nop0 | .ioc => true
  | _ => false

def Opcode.ignoresOperand : Opcode → Bool
  | .one | .rtn | .skz | .nopf => true
  | _ => false

/-- Instructions that do the same wherever they are executed. -/
def Instruction.Alike (i i' : Instruction) : Prop :=
  i' = i ∨ i.opcode.isIdle ∧ i'.opcode.isIdle ∨ i'.opcode = i.opcode ∧ i.opcode.ignoresOperand

instance (i i' : Instruction) : Decidable (i.Alike i') :=
  inferInstanceAs (Decidable (i' = i ∨ i.opcode.isIdle ∧ i'.opcode.isIdle ∨
    i'.opcode = i.opcode ∧ i.opcode.ignoresOperand))

/-- The instruction at a position is behind `RTN`, and the one before that does not skip. -/
structure Program.DeadAt (program : Program) (position : Nat) : Prop where
  behind : 0 < position
  skipper : ∃ i ∈ program[position - 1]?, i.opcode = .rtn
  before : ∀ i ∈ program[(position + program.length - 2) % program.length]?, i.opcode ≠ .rtn ∧ i.opcode ≠ .skz

instance (program : Program) (position : Nat) : Decidable (program.DeadAt position) :=
  decidable_of_iff
    (0 < position ∧ (∃ i ∈ program[position - 1]?, i.opcode = .rtn) ∧
      ∀ i ∈ program[(position + program.length - 2) % program.length]?, i.opcode ≠ .rtn ∧ i.opcode ≠ .skz)
    ⟨fun ⟨behind, skipper, before⟩ => ⟨behind, skipper, before⟩, fun dead => ⟨dead.behind, dead.skipper, dead.before⟩⟩

/-- Programs of one length whose instructions are alike but for those that are always skipped. -/
structure Program.Interchangeable (p q : Program) : Prop where
  length : q.length = p.length
  each : ∀ position, position < p.length →
    (∃ i ∈ p[position]?, ∃ i' ∈ q[position]?, i.Alike i') ∨ p.DeadAt position ∧ q.DeadAt position

/-- Calls one after the other, each with inputs of its own. Each call leaves its result, the emulator and the inputs that
it did not take. -/
def Emulator.executeCalls (program : Program) (limit : Nat) :
    List (List UInt8) → Emulator → List ((Except RunError Outcome × Emulator) × List UInt8)
  | [], _ => []
  | inputs :: later, e =>
    let call := Emulator.executeScripted program limit inputs e
    call :: Emulator.executeCalls program limit later call.1.2

/-- A state between two fetches, after some calls under some limit. -/
def Emulator.Reached (tape : Tape) (e : Emulator) : Prop := ∃ limit past, TapeHistory tape limit past e

theorem Emulator.Reached.step {tape : Tape} {e next : Emulator} (reached : e.Reached tape) (step : e.StepsTo tape next) :
    next.Reached tape := by
  obtain ⟨limit, past, history⟩ := reached
  have room : e.steps ≤ limit := history.steps_le
  exact ⟨limit + 1, past ++ [e], (history.mono (Nat.le_succ limit)).step (by omega) step⟩

section Dead

variable {program : Program} {filled : program ≠ []} {fits : program.length ≤ tapeCapacity} {limit : Nat}
  {past : List Emulator} {e : Emulator}

/-- Behind a `RTN` that is never skipped itself, the instruction is always skipped. -/
theorem TapeHistory.skip_of_dead (history : TapeHistory (program.tape filled fits) limit past e)
    (dead : program.DeadAt e.position) : e.machine.skip = true := by
  cases latest : past.getLast? with
  | none =>
    have started := history.position_eq
    rw [← history.length_past, List.getLast?_eq_none_iff.mp latest, List.length_nil, Nat.zero_mod] at started
    have inner := dead.behind
    omega
  | some before =>
    obtain ⟨older, earlier, -⟩ := history.earlier latest
    have inner := dead.behind
    have neighbours := history.position_behind latest
    have neighbour : before.position = e.position - 1 := by omega
    obtain ⟨i, here, skipper⟩ := dead.skipper
    rw [← neighbour] at here
    -- The instruction one before the `RTN` is none that skips, so the `RTN` was executed.
    have executed : before.machine.skip = false := by
      apply earlier.skip_clear
      intro first j latest' there
      have neighbours' := earlier.position_behind latest'
      have predecessor : (e.position + program.length - 2) % program.length = first.position := by
        rcases neighbours' with ⟨around, start⟩ | ⟨further, moved⟩
        · rw [Nat.mod_eq_of_lt (by omega)]
          omega
        · have shifted : e.position + program.length - 2 = first.position + program.length := by omega
          rw [shifted, Nat.add_mod_right, Nat.mod_eq_of_lt (by omega)]
      exact dead.before j (by rw [predecessor]; exact there)
    exact history.skip_iff_program.mpr ⟨before, i, latest, here, executed, Or.inl skipper⟩

end Dead

/-- Instructions that are alike do the same in every machine. -/
theorem Instruction.Alike.step_eq {i i' : Instruction} (alike : i.Alike i') (m : Machine) : m.step i' = m.step i := by
  rcases alike with rfl | ⟨idle, idle'⟩ | ⟨same, blind⟩
  · rfl
  · have still : ∀ {j : Instruction}, j.opcode.isIdle = true → m.step j = m := by
      intro j idle
      unfold Machine.step Machine.apply
      revert idle
      cases j.opcode with
      | nop0 | ioc => exact fun _ => rfl
      | _ => exact fun other => nomatch other
    rw [still idle, still idle']
  · unfold Machine.step Machine.apply
    rw [same]
    revert blind
    cases i.opcode with
    | one | rtn | skz | nopf => exact fun _ => rfl
    | _ => exact fun other => nomatch other

theorem Instruction.Alike.nopf_iff {i i' : Instruction} (alike : i.Alike i') :
    i'.opcode = .nopf ↔ i.opcode = .nopf := by
  rcases alike with rfl | ⟨idle, idle'⟩ | ⟨same, -⟩
  · rfl
  · have other : ∀ {o : Opcode}, o.isIdle = true → o ≠ .nopf := by
      rintro o idle rfl
      cases idle
    exact iff_of_false (other idle') (other idle)
  · rw [same]

/-- Only an instruction that is not skipped makes a difference to a fetch. -/
theorem Emulator.fetch_congr {tape tape' : Tape} {e : Emulator} (size : tape'.size = tape.size)
    (alike : e.machine.skip = false → (tape.instructionAt e.position).Alike (tape'.instructionAt e.position)) :
    e.fetch tape' = e.fetch tape := by
  unfold Emulator.fetch
  cases skip : e.machine.skip with
  | true => simp only [size, if_true]
  | false => simp only [size, (alike skip).nopf_iff, (alike skip).step_eq]

section Interchangeable

variable {p q : Program}

theorem Program.Interchangeable.fetch_eq (same : p.Interchangeable q) {filled : p ≠ []} {fits : p.length ≤ tapeCapacity}
    {filled' : q ≠ []} {fits' : q.length ≤ tapeCapacity} {e : Emulator} (reached : e.Reached (p.tape filled fits)) :
    e.fetch (q.tape filled' fits') = e.fetch (p.tape filled fits) := by
  obtain ⟨limit, past, history⟩ := reached
  apply Emulator.fetch_congr (by rw [Program.size_tape, Program.size_tape, same.length])
  intro clear
  have here := history.instruction
  have inside := (List.getElem?_eq_some_iff.mp here).1
  have there := q.getElem?_mod filled' fits' e.position
  rw [same.length, Nat.mod_eq_of_lt inside] at there
  rcases same.each e.position inside with ⟨i, atP, i', atQ, alike⟩ | ⟨dead, -⟩
  · rw [here, Option.mem_some_iff] at atP
    rw [there, Option.mem_some_iff] at atQ
    rwa [atP, atQ]
  · rw [history.skip_of_dead dead] at clear
    cases clear

/-- Fetches of interchangeable tapes are the same in every state that calls lead to. -/
theorem Program.Interchangeable.lockstep (same : p.Interchangeable q) (filled : p ≠ []) (fits : p.length ≤ tapeCapacity)
    (filled' : q ≠ []) (fits' : q.length ≤ tapeCapacity) :
    Lockstep (p.tape filled fits) (q.tape filled' fits') fun e e' => e' = e ∧ e.Reached (p.tape filled fits) := by
  rintro _ e ⟨rfl, reached⟩
  rw [same.fetch_eq reached]
  have moved : ∀ {f : Fetch}, e.fetch (p.tape filled fits) = f → f.emulator.Reached (p.tape filled fits) := by
    rintro _ rfl
    exact reached.step .fetched
  cases fetch : e.fetch (p.tape filled fits) with
  | went next => exact .went ⟨rfl, moved fetch⟩
  | halt last => exact .halt ⟨rfl, moved fetch⟩
  | request next => exact .request ⟨rfl, moved fetch⟩ fun bits => ⟨rfl, reached.step (.answered fetch)⟩

/-- Whether a program is refused, and why, depends on its length only. -/
theorem Tape.refused_of_length {error : RunError} (length : q.length = p.length)
    (refused : Tape.ofProgram? p = .error error) : Tape.ofProgram? q = .error error := by
  by_cases empty : p = []
  · rw [empty, List.length_nil] at length
    rwa [List.length_eq_zero_iff.mp length, ← empty]
  by_cases fits : p.length ≤ tapeCapacity
  · rw [Tape.ofProgram?_of_fits empty fits] at refused
    cases refused
  · have large := Nat.not_le.mp fits
    rwa [Tape.ofProgram?_of_large (by rwa [length]), length, ← Tape.ofProgram?_of_large large]

/-- A call on one of two interchangeable programs is a call on the other. -/
theorem Program.Interchangeable.execute_eq (same : p.Interchangeable q) (limit : Nat) {σ : Type}
    (source : StateM σ (Option UInt8)) (s : σ) {e : Emulator}
    (reached : ∀ filled fits, e.Reached (p.tape filled fits)) :
    (e.execute q limit source).run s = (e.execute p limit source).run s ∧
      ∀ filled fits, ((e.execute p limit source).run s).1.2.Reached (p.tape filled fits) := by
  rcases p.refused_or_tape with ⟨error, refused⟩ | ⟨filled, fits, loaded⟩
  · rw [Emulator.execute_refused refused, Emulator.execute_refused (Tape.refused_of_length same.length refused)]
    exact ⟨rfl, reached⟩
  · have filled' : q ≠ [] := by
      rw [← List.length_pos_iff, same.length]
      exact List.length_pos_iff.mpr filled
    have fits' : q.length ≤ tapeCapacity := same.length ▸ fits
    obtain ⟨stop, last, last', s', run, run', rfl, arrived⟩ :=
      (same.lockstep filled fits filled' fits').drive ⟨rfl, reached filled fits⟩ source (limit - e.steps) s
    rw [Emulator.execute_run loaded, Emulator.execute_run (Tape.ofProgram?_of_fits filled' fits'), run, run']
    exact ⟨rfl, fun _ _ => arrived⟩

theorem Program.Interchangeable.executeCalls_eq (same : p.Interchangeable q) (limit : Nat) (calls : List (List UInt8))
    {e : Emulator} (reached : ∀ filled fits, e.Reached (p.tape filled fits)) :
    Emulator.executeCalls q limit calls e = Emulator.executeCalls p limit calls e := by
  induction calls generalizing e with
  | nil => rfl
  | cons inputs later ih =>
    obtain ⟨call, arrived⟩ := same.execute_eq limit nextScripted inputs reached
    rw [Emulator.executeCalls, Emulator.executeCalls, Emulator.executeScripted, call, Emulator.executeScripted, ih arrived]

end Interchangeable

/-- Interchangeable programs cannot be told apart by calls: under any limit, any number of calls on a new emulator give
the same results, leave the same registers, positions and counts, and take the same inputs. -/
theorem interchangeable_tapes_run_alike {p q : Program} (same : p.Interchangeable q) (limit : Nat)
    (calls : List (List UInt8)) : Emulator.executeCalls q limit calls {} = Emulator.executeCalls p limit calls {} :=
  same.executeCalls_eq limit calls fun _ _ => ⟨0, [], .new⟩

/-- The instruction behind `RTN` requests inputs in one program and stores in the other. The first call ends at the
request of the first instruction, the second one halts, and the third one requests again. -/
theorem calls_alike_around_dead_instruction :
    let p := Program.decode [0xF0, 0x40, 0xD0, 0xF0, 0x00, 0xF0]
    let q := Program.decode [0xF9, 0x4A, 0xDF, 0x88, 0xC1, 0xF2]
    p.Interchangeable q ∧
      Emulator.executeCalls q 20 [[], [5], []] {} = Emulator.executeCalls p 20 [[], [5], []] {} ∧
      (Emulator.executeCalls q 20 [[], [5], []] {}).map (fun call => (call.1.1.map (·.stop), call.2)) =
        [(.ok .inputsExhausted, []), (.ok .halted, [5]), (.ok .inputsExhausted, [])] := by
  have same : Program.Interchangeable (.decode [0xF0, 0x40, 0xD0, 0xF0, 0x00, 0xF0])
      (.decode [0xF9, 0x4A, 0xDF, 0x88, 0xC1, 0xF2]) := ⟨rfl, by decide⟩
  exact ⟨same, interchangeable_tapes_run_alike same 20 _, by decide⟩

end OneBit
