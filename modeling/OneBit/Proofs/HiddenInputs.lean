import OneBit.Proofs.RunStates

namespace OneBit

/-- The instructions that use the bit that their operand reads. -/
def Opcode.usesData : Opcode → Bool
  | .ld | .add | .sub | .nand | .or | .xor | .ien | .oen => true
  | .nop0 | .one | .sto | .stoc | .ioc | .rtn | .skz | .nopf => false

/-- Some instruction of the program uses what a channel reads. -/
def Program.Uses (program : Program) (index : Fin 8) : Prop :=
  ∃ i ∈ program, i.opcode.usesData = true ∧ i.operand = .channel index

instance (program : Program) (index : Fin 8) : Decidable (program.Uses index) :=
  inferInstanceAs (Decidable (∃ i ∈ program, i.opcode.usesData = true ∧ i.operand = .channel index))

/-- Values that load the same bits into the inputs that are seen. -/
def BitsAgreeOn (seen : Fin 8 → Prop) (bits bits' : UInt8) : Prop :=
  ∀ index : Fin 8, index.val ≠ 0 → seen index →
    bits'.toNat.testBit (index.val - 1) = bits.toNat.testBit (index.val - 1)

instance (seen : Fin 8 → Prop) [DecidablePred seen] (bits bits' : UInt8) :
    Decidable (BitsAgreeOn seen bits bits') :=
  inferInstanceAs (Decidable (∀ index : Fin 8, index.val ≠ 0 → seen index →
    bits'.toNat.testBit (index.val - 1) = bits.toNat.testBit (index.val - 1)))

/-- Machines that are the same but for inputs that are not seen. The first input, which no value loads, is the same
too. -/
structure Machine.AgreesOn (seen : Fin 8 → Prop) (m m' : Machine) : Prop where
  rest : m' = { m with inputs := m'.inputs }
  inputs : ∀ index : Fin 8, index.val = 0 ∨ seen index → m'.inputs.get index = m.inputs.get index

structure Emulator.AgreesOn (seen : Fin 8 → Prop) (e e' : Emulator) : Prop where
  position : e'.position = e.position
  steps : e'.steps = e.steps
  machine : e.machine.AgreesOn seen e'.machine

inductive Fetch.AgreesOn (seen : Fin 8 → Prop) : Fetch → Fetch → Prop
  | went {next next'} : next.AgreesOn seen next' → AgreesOn seen (.went next) (.went next')
  | request {next next'} : next.AgreesOn seen next' → AgreesOn seen (.request next) (.request next')
  | halt {last last'} : last.AgreesOn seen last' → AgreesOn seen (.halt last) (.halt last')

/-- Endings of the same kind, with the same error or after as many steps. -/
inductive SameEnding (seen : Fin 8 → Prop) : Except RunError Outcome → Except RunError Outcome → Prop
  | error {error} : SameEnding seen (.error error) (.error error)
  | ok {stop steps m m'} : m.AgreesOn seen m' → SameEnding seen (.ok ⟨stop, steps, m⟩) (.ok ⟨stop, steps, m'⟩)

/-- Runs from the beginning that end alike, leave agreeing states behind and as many inputs unread. -/
structure RunsAgreeOn (seen : Fin 8 → Prop) (program : Program) (limit : Nat) (xs ys : List UInt8) : Prop where
  ending : SameEnding seen (Emulator.executeScripted program limit xs {}).1.1
    (Emulator.executeScripted program limit ys {}).1.1
  state : (stateAfter program nextScripted xs limit).AgreesOn seen (stateAfter program nextScripted ys limit)
  unread : (Emulator.executeScripted program limit ys {}).2.length =
    (Emulator.executeScripted program limit xs {}).2.length

/-- In a machine, an instruction does not depend on inputs that are not seen: whatever it would read there, it does
the same. -/
def Instruction.SeesOnly (seen : Fin 8 → Prop) (m : Machine) (i : Instruction) : Prop :=
  ∀ index : Fin 8, i.operand = .channel index → index.val ≠ 0 → ¬seen index → ∀ data, m.apply i data = m.step i

/-- The next fetch does not depend on inputs that are not seen. -/
def Emulator.SeesOnly (tape : Tape) (seen : Fin 8 → Prop) (e : Emulator) : Prop :=
  e.machine.skip = false → (tape.instructionAt e.position).SeesOnly seen e.machine

section Steps

variable {seen : Fin 8 → Prop} {m m' : Machine} {e e' : Emulator} {tape : Tape}

theorem Machine.AgreesOn.refl (m : Machine) : m.AgreesOn seen m := ⟨rfl, fun _ _ => rfl⟩

theorem Emulator.AgreesOn.refl (e : Emulator) : e.AgreesOn seen e := ⟨rfl, rfl, .refl e.machine⟩

/-- Where all inputs are seen, machines that agree are equal. -/
theorem Machine.AgreesOn.eq_of_all (agree : m.AgreesOn seen m') (all : ∀ index, seen index) : m' = m := by
  have same : m'.inputs = m.inputs := by
    apply Vector.ext
    intro k inside
    exact agree.inputs ⟨k, inside⟩ (Or.inr (all _))
  rw [agree.rest, same]

theorem Machine.store_withInputs (m : Machine) (bank : Bank) (operand : Operand) (bit : Bool) :
    ({ m with inputs := bank } : Machine).store operand bit = { m.store operand bit with inputs := bank } := by
  unfold Machine.store
  dsimp only
  split
  · cases operand with
    | scratch index => rfl
    | channel index => rfl
  · rfl

/-- With its data given, an instruction neither reads nor writes the inputs. -/
theorem Machine.apply_withInputs (m : Machine) (bank : Bank) (i : Instruction) (data : Bool) :
    ({ m with inputs := bank } : Machine).apply i data = { m.apply i data with inputs := bank } := by
  unfold Machine.apply
  cases i.opcode with
  | sto | stoc => exact m.store_withInputs bank _ _
  | _ => rfl

theorem Machine.AgreesOn.read (agree : m.AgreesOn seen m') {operand : Operand}
    (visible : ∀ index : Fin 8, operand = .channel index → index.val ≠ 0 → seen index) :
    m'.read operand = m.read operand := by
  cases operand with
  | scratch index =>
    rw [agree.rest]
    rfl
  | channel index =>
    by_cases first : index.val = 0
    · rw [agree.rest, Machine.read, Machine.read, if_pos first, if_pos first]
    · rw [Machine.read, Machine.read, if_neg first, if_neg first]
      exact agree.inputs index (Or.inr (visible index rfl first))

/-- An instruction that sees only what agrees keeps agreement. -/
theorem Machine.AgreesOn.step (agree : m.AgreesOn seen m') {i : Instruction} (blind : i.SeesOnly seen m) :
    (m.step i).AgreesOn seen (m'.step i) := by
  have data : m.apply i (m'.read i.operand) = m.step i := by
    by_cases hidden : ∃ index : Fin 8, i.operand = .channel index ∧ index.val ≠ 0 ∧ ¬seen index
    · obtain ⟨index, target, used, unseen⟩ := hidden
      exact blind index target used unseen _
    · have visible : ∀ index : Fin 8, i.operand = .channel index → index.val ≠ 0 → seen index := by
        intro index target used
        by_contra unseen
        exact hidden ⟨index, target, used, unseen⟩
      rw [agree.read visible]
      rfl
  have moved : m'.step i = { m.step i with inputs := m'.inputs } := by
    rw [← data, ← Machine.apply_withInputs, ← agree.rest]
    rfl
  constructor
  · rw [Machine.step_inputs]
    exact moved
  · intro index visible
    rw [Machine.step_inputs, Machine.step_inputs]
    exact agree.inputs index visible

theorem Machine.AgreesOn.loadInputs (agree : m.AgreesOn seen m') {bits bits' : UInt8}
    (same : BitsAgreeOn seen bits bits') : (m.loadInputs bits).AgreesOn seen (m'.loadInputs bits') := by
  constructor
  · rw [agree.rest]
    rfl
  · intro index visible
    rw [Machine.get_loadInputs, Machine.get_loadInputs]
    by_cases first : index.val = 0
    · rw [if_pos first, if_pos first]
      exact agree.inputs index visible
    · rw [if_neg first, if_neg first]
      exact same index first (visible.resolve_left first)

theorem Emulator.AgreesOn.answer (agree : e.AgreesOn seen e') {bits bits' : UInt8}
    (same : BitsAgreeOn seen bits bits') : (e.answer bits).AgreesOn seen (e'.answer bits') :=
  ⟨agree.position, agree.steps, agree.machine.loadInputs same⟩

/-- Emulators that agree fetch the same instruction, with the same consequence. -/
theorem Emulator.AgreesOn.fetch (agree : e.AgreesOn seen e') (blind : e.SeesOnly tape seen) :
    (e.fetch tape).AgreesOn seen (e'.fetch tape) := by
  have skip : e'.machine.skip = e.machine.skip := by rw [agree.machine.rest]
  have moved : ∀ {m m' : Machine}, m.AgreesOn seen m' →
      Emulator.AgreesOn seen ⟨m, (e.position + 1) % tape.size, e.steps + 1⟩
        ⟨m', (e.position + 1) % tape.size, e.steps + 1⟩ := fun same => ⟨rfl, rfl, same⟩
  unfold Emulator.fetch
  rw [agree.position, agree.steps, skip]
  cases skipped : e.machine.skip with
  | true =>
    simp only [if_true]
    refine .went (moved ⟨?_, agree.machine.inputs⟩)
    rw [agree.machine.rest]
  | false =>
    simp only [Bool.false_eq_true, if_false]
    by_cases final : (tape.instructionAt e.position).opcode = .nopf
    · rw [if_pos final, if_pos final]
      by_cases around : (e.position + 1) % tape.size = 0
      · rw [if_pos around, if_pos around]
        exact .halt (moved agree.machine)
      · rw [if_neg around, if_neg around]
        exact .request (moved agree.machine)
    · rw [if_neg final, if_neg final]
      exact .went (moved (agree.machine.step (blind skipped)))

theorem Emulator.AgreesOn.ending (agree : e.AgreesOn seen e') (limit : Nat) (stop : Option Stop) :
    SameEnding seen (e.ending limit stop) (e'.ending limit stop) := by
  cases stop with
  | none => exact .error
  | some reason =>
    rw [Emulator.ending, Emulator.ending, agree.steps]
    exact .ok agree.machine

theorem Emulator.AgreesOn.eq_of_all (agree : e.AgreesOn seen e') (all : ∀ index, seen index) : e' = e := by
  have position := agree.position
  have steps := agree.steps
  have machine := agree.machine.eq_of_all all
  cases e
  cases e'
  cases position
  cases steps
  cases machine
  rfl

theorem SameEnding.eq_of_all {result result' : Except RunError Outcome} (same : SameEnding seen result result')
    (all : ∀ index, seen index) : result' = result := by
  cases same with
  | error => rfl
  | ok agree => rw [agree.eq_of_all all]

/-- Two runs whose inputs agree where the first one looks go on and stop alike. -/
theorem Emulator.AgreesOn.driveScripted (agree : e.AgreesOn seen e') {xs ys : List UInt8}
    (same : List.Forall₂ (BitsAgreeOn seen) xs ys) {budget : Nat}
    (blind : ∀ fetches, fetches < budget → (e.driveScripted tape fetches xs).1.2.SeesOnly tape seen) :
    ∃ stop last last' unread unread', e.driveScripted tape budget xs = ((stop, last), unread) ∧
      e'.driveScripted tape budget ys = ((stop, last'), unread') ∧ last.AgreesOn seen last' ∧
      unread'.length = unread.length := by
  induction budget generalizing e e' xs ys with
  | zero => exact ⟨none, e, e', xs, ys, rfl, rfl, agree, same.length_eq.symm⟩
  | succ budget ih =>
    have both := agree.fetch (blind 0 (Nat.zero_lt_succ budget))
    generalize fetch : e.fetch tape = f at both
    generalize fetch' : e'.fetch tape = f' at both
    cases both with
    | went further =>
      rw [Emulator.driveScripted_went fetch, Emulator.driveScripted_went fetch']
      apply ih further same
      intro fetches within
      rw [← Emulator.driveScripted_went fetch]
      exact blind (fetches + 1) (Nat.succ_lt_succ within)
    | @halt last last' stopped =>
      exact ⟨some .halted, last, last', xs, ys, Emulator.driveScripted_halt fetch budget xs,
        Emulator.driveScripted_halt fetch' budget ys, stopped, same.length_eq.symm⟩
    | @request next next' asked =>
      cases same with
      | nil =>
        exact ⟨some .inputsExhausted, next, next', [], [], Emulator.driveScripted_request_nil fetch budget,
          Emulator.driveScripted_request_nil fetch' budget, asked, rfl⟩
      | cons first others =>
        rw [Emulator.driveScripted_request_cons fetch, Emulator.driveScripted_request_cons fetch']
        apply ih (asked.answer first) others
        intro fetches within
        rw [← Emulator.driveScripted_request_cons fetch]
        exact blind (fetches + 1) (Nat.succ_lt_succ within)

end Steps

section Programs

variable {seen : Fin 8 → Prop} {program : Program} {limit : Nat} {xs ys : List UInt8}

theorem runsAgreeOn_of_blind (same : List.Forall₂ (BitsAgreeOn seen) xs ys)
    (blind : ∀ tape, Tape.ofProgram? program = .ok tape → ∀ fetches, fetches < limit →
      (stateAfter program nextScripted xs fetches).SeesOnly tape seen) :
    RunsAgreeOn seen program limit xs ys := by
  cases loaded : Tape.ofProgram? program with
  | error error =>
    constructor
    · rw [Emulator.executeScripted_refused loaded, Emulator.executeScripted_refused loaded]
      exact .error
    · rw [stateAfter_of_refused loaded, stateAfter_of_refused loaded]
      exact .refl {}
    · rw [Emulator.executeScripted_refused loaded, Emulator.executeScripted_refused loaded]
      exact same.length_eq.symm
  | ok tape =>
    have looks : ∀ fetches, fetches < limit →
        (({} : Emulator).driveScripted tape fetches xs).1.2.SeesOnly tape seen := by
      intro fetches within
      obtain ⟨stop, unread, driven⟩ := exists_drive loaded nextScripted xs fetches
      rw [Emulator.driveScripted, driven]
      exact blind tape loaded fetches within
    obtain ⟨stop, last, last', unread, unread', run, run', agree, left⟩ :=
      (Emulator.AgreesOn.refl {}).driveScripted same looks
    rw [Emulator.driveScripted] at run run'
    have call : Emulator.executeScripted program limit xs {} = ((last.ending limit stop, last), unread) := by
      rw [Emulator.executeScripted, Emulator.execute_new loaded, run]
    have call' : Emulator.executeScripted program limit ys {} = ((last'.ending limit stop, last'), unread') := by
      rw [Emulator.executeScripted, Emulator.execute_new loaded, run']
    constructor
    · rw [call, call']
      exact agree.ending limit stop
    · rw [stateAfter_of_drive loaded run, stateAfter_of_drive loaded run']
      exact agree
    · rw [call, call']
      exact left

end Programs

theorem Tape.instructionAt_mem {program : Program} {tape : Tape} (loaded : Tape.ofProgram? program = .ok tape)
    (position : Nat) : tape.instructionAt position ∈ program := by
  rcases program.refused_or_tape with ⟨error, refused⟩ | ⟨filled, fits, same⟩
  · rw [loaded] at refused
    cases refused
  · rw [loaded, Except.ok.injEq] at same
    subst same
    exact List.mem_of_getElem? (program.getElem?_mod filled fits position)

/-- An instruction that does not use its data does the same with any. -/
theorem Machine.apply_of_unused {i : Instruction} (unused : i.opcode.usesData = false) (m : Machine) (data : Bool) :
    m.apply i data = m.step i := by
  unfold Machine.step Machine.apply
  revert unused
  cases i.opcode with
  | ld | add | sub | nand | or | xor | ien | oen => exact fun used => nomatch used
  | _ => exact fun _ => rfl

/-- While inputs are disabled, only the enabling instructions make a difference between data. -/
theorem Machine.apply_of_disabled {m : Machine} (disabled : m.inputEnable = false) {i : Instruction}
    (ordinary : ¬(i.opcode = .ien ∨ i.opcode = .oen)) (data : Bool) : m.apply i data = m.step i := by
  unfold Machine.step Machine.apply
  simp only [disabled, Bool.and_false]
  revert ordinary
  cases i.opcode with
  | ien | oen => exact fun ordinary => absurd (by simp) ordinary
  | _ => exact fun _ => rfl

/-- Bits of inputs that no instruction uses do not matter. If two lists of inputs agree on the bits of those that some
instruction uses, the runs on them end in the same way after as many steps and leave as many values, and their machines
are the same but for inputs that are not used. The highest bit of a value belongs to no input: lists that agree on the
other bits have equal runs. -/
theorem runs_ignore_unused_inputs (program : Program) (limit : Nat) (xs ys : List UInt8) :
    (List.Forall₂ (BitsAgreeOn program.Uses) xs ys → RunsAgreeOn program.Uses program limit xs ys) ∧
    (List.Forall₂ (fun x y => ∀ place, place < 7 → y.toNat.testBit place = x.toNat.testBit place) xs ys →
      (Emulator.executeScripted program limit ys {}).1 = (Emulator.executeScripted program limit xs {}).1 ∧
      (Emulator.executeScripted program limit ys {}).2.length =
        (Emulator.executeScripted program limit xs {}).2.length) := by
  constructor
  · intro same
    apply runsAgreeOn_of_blind same
    intro tape loaded fetches within clear index target used unseen data
    generalize stateAfter program nextScripted xs fetches = e at target ⊢
    have unused : (tape.instructionAt e.position).opcode.usesData = false := by
      rw [← Bool.not_eq_true]
      intro uses
      exact unseen ⟨_, Tape.instructionAt_mem loaded e.position, uses, target⟩
    exact Machine.apply_of_unused unused e.machine data
  · intro same
    have all : List.Forall₂ (BitsAgreeOn fun _ => True) xs ys := by
      apply same.imp
      intro x y low index used _
      exact low (index.val - 1) (by omega)
    have agree : RunsAgreeOn (fun _ => True) program limit xs ys := by
      apply runsAgreeOn_of_blind all
      intro tape loaded fetches within clear index target used unseen
      exact absurd trivial unseen
    refine ⟨Prod.ext ?_ ?_, agree.unread⟩
    · exact agree.ending.eq_of_all fun _ => trivial
    · exact agree.state.eq_of_all fun _ => trivial

/-- A tape that stores the one input that it uses. The answers differ in all the others. -/
theorem run_on_other_unused_bits :
    let program := Program.decode [0xF0, 0x40, 0xA8, 0xB8, 0x19, 0x89, 0xF0]
    List.Forall₂ (BitsAgreeOn program.Uses) [1] [0xFF] ∧ RunsAgreeOn program.Uses program 9 [1] [0xFF] ∧
      (run program [1] 9).map (fun outcome => (outcome.steps, outcome.machine.outputWord)) = .ok (7, 2) := by
  have agree : List.Forall₂ (BitsAgreeOn (Program.decode [0xF0, 0x40, 0xA8, 0xB8, 0x19, 0x89, 0xF0]).Uses)
      [1] [0xFF] := .cons (by decide) .nil
  exact ⟨agree, (runs_ignore_unused_inputs _ 9 [1] [0xFF]).1 agree, rfl⟩

/-- While the inputs are disabled, nothing depends on their values unless an enabling instruction reads one of them. If
no `IEN` or `OEN` does, and inputs are disabled in all states of a run, then a run on any other list of as many values
ends in the same way after as many steps and leaves as many values; its machine is the same but for the inputs, so that
its inputs are disabled throughout and its output word is the same. -/
theorem runs_hide_inputs_while_disabled (program : Program)
    (gated : ∀ i ∈ program, i.opcode = .ien ∨ i.opcode = .oen →
      ∀ index : Fin 8, index.val ≠ 0 → i.operand ≠ .channel index)
    (limit : Nat) {xs ys : List UInt8} (length : ys.length = xs.length)
    (disabled : ∀ fetches, fetches ≤ limit →
      (stateAfter program nextScripted xs fetches).machine.inputEnable = false) :
    RunsAgreeOn (fun _ => False) program limit xs ys ∧
      (∀ fetches, fetches ≤ limit → (stateAfter program nextScripted ys fetches).machine.inputEnable = false) ∧
      (stateAfter program nextScripted ys limit).machine.outputWord =
        (stateAfter program nextScripted xs limit).machine.outputWord := by
  have same : List.Forall₂ (BitsAgreeOn fun _ => False) xs ys := by
    rw [List.forall₂_iff_get]
    exact ⟨length.symm, fun _ _ _ _ _ unseen => absurd unseen id⟩
  have agree : ∀ fetches, fetches ≤ limit → RunsAgreeOn (fun _ => False) program fetches xs ys := by
    intro fetches within
    apply runsAgreeOn_of_blind same
    intro tape loaded earlier before clear index target used _ data
    have down := disabled earlier (by omega)
    generalize stateAfter program nextScripted xs earlier = e at target down ⊢
    have member := Tape.instructionAt_mem loaded e.position
    exact Machine.apply_of_disabled down (fun enabling => gated _ member enabling index used target) data
  refine ⟨agree limit (Nat.le_refl limit), ?_, ?_⟩
  · intro fetches within
    rw [(agree fetches within).state.machine.rest]
    exact disabled fetches within
  · rw [(agree limit (Nat.le_refl limit)).state.machine.rest]
    rfl

/-- A tape that enables outputs and not inputs. It stores the complement of an input, which counts as 0 whatever its
value. -/
theorem run_on_other_hidden_inputs :
    let program := Program.decode [0xF0, 0x40, 0xB8, 0x19, 0x99, 0xF0]
    (∀ i ∈ program, i.opcode = .ien ∨ i.opcode = .oen →
      ∀ index : Fin 8, index.val ≠ 0 → i.operand ≠ .channel index) ∧
    (∀ fetches, fetches ≤ 9 → (stateAfter program nextScripted [0x7F] fetches).machine.inputEnable = false) ∧
    RunsAgreeOn (fun _ => False) program 9 [0x7F] [0] ∧
      (stateAfter program nextScripted [0] 9).machine.outputWord = 2 := by
  have gated : ∀ i ∈ Program.decode [0xF0, 0x40, 0xB8, 0x19, 0x99, 0xF0], i.opcode = .ien ∨ i.opcode = .oen →
      ∀ index : Fin 8, index.val ≠ 0 → i.operand ≠ .channel index := by decide
  have disabled : ∀ fetches, fetches ≤ 9 → (stateAfter (Program.decode [0xF0, 0x40, 0xB8, 0x19, 0x99, 0xF0])
      nextScripted [0x7F] fetches).machine.inputEnable = false := by decide
  have length : ([0] : List UInt8).length = [0x7F].length := rfl
  obtain ⟨agree, -, word⟩ := runs_hide_inputs_while_disabled _ gated 9 length disabled
  exact ⟨gated, disabled, agree, word.trans rfl⟩

end OneBit
