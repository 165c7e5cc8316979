import OneBit.Proofs.NumeralReading
import OneBit.Proofs.RunStates

namespace OneBit

/-- The bit behind an operand on the side of the stores. -/
def Machine.written (m : Machine) : Operand → Bool
  | .scratch index => m.scratch.get index
  | .channel index => m.outputs.get index

/-- The place of that bit in the output word. -/
def Operand.outputPlace : Operand → Nat
  | .scratch index => 8 + index.val
  | .channel index => index.val

/-- The bit that an instruction stores at an operand. It stores none there unless it is a store to that operand, is
not skipped and finds the outputs enabled. -/
def Instruction.storedBit? (i : Instruction) (m : Machine) (operand : Operand) : Option Bool :=
  if m.skip = false ∧ m.outputEnable = true ∧ i.operand = operand then
    match i.opcode with
    | .sto => some m.result
    | .stoc => some !m.result
    | _ => none
  else none

/-- The bit that the next fetch stores at an operand. -/
def Emulator.storedBit? (program : Program) (operand : Operand) (e : Emulator) : Option Bool :=
  program[e.position]?.bind fun i => i.storedBit? e.machine operand

/-- The bit of the latest store to an operand that took effect, and clear if there was none. -/
def latestStore (program : Program) (past : List Emulator) (operand : Operand) : Bool :=
  (past.filterMap (Emulator.storedBit? program operand)).getLast?.getD false

/-- The next fetch executes `OEN` on a bit that is set. -/
def Emulator.EnablesOutputs (program : Program) (e : Emulator) : Prop :=
  e.machine.skip = false ∧
    ∃ i, program[e.position]? = some i ∧ i.opcode = .oen ∧ e.machine.read i.operand = true

theorem Instruction.storedBit?_of_not_store {i : Instruction} (other : i.opcode.isStore = false) (m : Machine)
    (operand : Operand) : i.storedBit? m operand = none := by
  unfold Instruction.storedBit?
  split
  · revert other
    cases i.opcode with
    | sto | stoc => exact fun store => nomatch store
    | _ => exact fun _ => rfl
  · rfl

theorem Instruction.storedBit?_of_disabled {m : Machine} (disabled : m.skip = true ∨ m.outputEnable = false)
    (i : Instruction) (operand : Operand) : i.storedBit? m operand = none := by
  rw [Instruction.storedBit?, if_neg]
  rintro ⟨clear, enabled, -⟩
  rcases disabled with skip | disabled
  · rw [clear] at skip
    cases skip
  · rw [disabled] at enabled
    cases enabled

theorem Machine.written_write (m : Machine) (target operand : Operand) (bit : Bool) :
    (m.write target bit).written operand = if target = operand then bit else m.written operand := by
  cases target with
  | scratch index =>
    cases operand with
    | scratch other => simp only [Machine.write, Machine.written, Bank.get_assign, Operand.scratch.injEq, eq_comm]
    | channel other => rw [if_neg (by simp)]; rfl
  | channel index =>
    cases operand with
    | scratch other => rw [if_neg (by simp)]; rfl
    | channel other => simp only [Machine.write, Machine.written, Bank.get_assign, Operand.channel.injEq, eq_comm]

theorem Machine.written_store (m : Machine) (target operand : Operand) (bit : Bool) :
    (m.store target bit).written operand =
      if m.outputEnable = true ∧ target = operand then bit else m.written operand := by
  unfold Machine.store
  split
  · rename_i enabled
    simp only [Machine.written_write, enabled, true_and]
  · rename_i disabled
    rw [if_neg (fun both => disabled both.1)]

theorem Machine.written_congr {m m' : Machine} (scratch : m'.scratch = m.scratch) (outputs : m'.outputs = m.outputs)
    (operand : Operand) : m'.written operand = m.written operand := by
  cases operand with
  | scratch index => rw [Machine.written, scratch]; rfl
  | channel index => rw [Machine.written, outputs]; rfl

/-- An instruction that is executed writes what it stores and nothing else. -/
theorem Machine.written_step (m : Machine) (i : Instruction) (clear : m.skip = false) (operand : Operand) :
    (m.step i).written operand = (i.storedBit? m operand).getD (m.written operand) := by
  unfold Machine.step Machine.apply Instruction.storedBit?
  cases i.opcode with
  | sto | stoc =>
    simp only [Machine.written_store, clear, true_and]
    split
    · rfl
    · rfl
  | _ =>
    rw [ite_self]
    exact Machine.written_congr rfl rfl operand

theorem Machine.step_of_storedBit {m : Machine} {i : Instruction} {operand : Operand} {bit : Bool}
    (stored : i.storedBit? m operand = some bit) : m.step i = m.write operand bit := by
  unfold Instruction.storedBit? at stored
  split at stored
  · rename_i effective
    obtain ⟨-, enabled, target⟩ := effective
    unfold Machine.step Machine.apply
    revert stored
    cases i.opcode with
    | sto | stoc =>
      intro stored
      cases stored
      simp only [Machine.store, enabled, if_true, target]
    | _ => exact fun other => nomatch other
  · cases stored

theorem Machine.step_result_of_store {i : Instruction} (store : i.opcode.isStore = true) (m : Machine) :
    (m.step i).result = m.result := by
  unfold Machine.step Machine.apply
  revert store
  cases i.opcode with
  | sto | stoc => exact fun _ => m.store_result _ _
  | _ => exact fun other => nomatch other

@[simp]
theorem Machine.written_new (operand : Operand) : ({} : Machine).written operand = false := by
  cases operand with
  | scratch index => exact Vector.getElem_replicate index.isLt
  | channel index => exact Vector.getElem_replicate index.isLt

section Histories

variable {program : Program} {filled : program ≠ []} {fits : program.length ≤ tapeCapacity} {limit : Nat}
  {past : List Emulator} {e : Emulator}

theorem TapeHistory.storedBit?_eq (history : TapeHistory (program.tape filled fits) limit past e) (operand : Operand) :
    e.storedBit? program operand =
      ((program.tape filled fits).instructionAt e.position).storedBit? e.machine operand := by
  rw [Emulator.storedBit?, history.instruction, Option.bind_some]

/-- The register of an operand changes with a fetch that stores there, and only with such a fetch. -/
theorem TapeHistory.written_next (history : TapeHistory (program.tape filled fits) limit past e) {next : Emulator}
    (step : e.StepsTo (program.tape filled fits) next) (operand : Operand) :
    next.machine.written operand = (e.storedBit? program operand).getD (e.machine.written operand) := by
  rw [history.storedBit?_eq]
  have reason := step.cases
  generalize next.machine = m at reason
  cases reason with
  | skipped skip =>
    rw [Instruction.storedBit?_of_disabled (Or.inl skip)]
    exact Machine.written_congr rfl rfl operand
  | executed clear ordinary => exact e.machine.written_step _ clear operand
  | waited clear final | answered clear final =>
    have other : ((program.tape filled fits).instructionAt e.position).opcode.isStore = false := by rw [final]; rfl
    rw [Instruction.storedBit?_of_not_store other]
    exact Machine.written_congr rfl rfl operand

/-- Every register holds what the latest store to it left there. -/
theorem TapeHistory.written (history : TapeHistory (program.tape filled fits) limit past e) (operand : Operand) :
    e.machine.written operand = latestStore program past operand := by
  induction history with
  | new => exact Machine.written_new operand
  | @step past e next history within step ih =>
    rw [history.written_next step, ih, latestStore, latestStore, List.filterMap_append, List.filterMap_cons,
      List.filterMap_nil]
    cases e.storedBit? program operand with
    | none => rw [List.append_nil, Option.getD_none]
    | some bit => rw [List.getLast?_concat, Option.getD_some, Option.getD_some]

/-- Outputs stay disabled until an `OEN` enables them. -/
theorem TapeHistory.disabled_next (history : TapeHistory (program.tape filled fits) limit past e) {next : Emulator}
    (step : e.StepsTo (program.tape filled fits) next) (never : ¬e.EnablesOutputs program)
    (disabled : e.machine.outputEnable = false) : next.machine.outputEnable = false := by
  have reason := step.cases
  generalize next.machine = m at reason
  cases reason with
  | skipped skip => exact disabled
  | waited clear final | answered clear final => exact disabled
  | executed clear ordinary =>
    rw [← Bool.not_eq_true]
    intro enabled
    rcases e.machine.step_outputEnable _ enabled with before | ⟨oen, set⟩
    · rw [disabled] at before
      cases before
    · exact never ⟨clear, _, history.instruction, oen, set⟩

/-- Outputs that no `OEN` has enabled let no store through. -/
theorem TapeHistory.nothing_written (history : TapeHistory (program.tape filled fits) limit past e)
    (never : ∀ before ∈ past, ¬before.EnablesOutputs program) :
    e.machine.outputEnable = false ∧ ∀ operand, e.machine.written operand = false := by
  induction history with
  | new => exact ⟨rfl, Machine.written_new⟩
  | @step past e next history within step ih =>
    obtain ⟨disabled, clear⟩ := ih fun before earlier => never before (List.mem_append_left [e] earlier)
    have not_now := never e (List.mem_append_right past (List.mem_singleton_self e))
    refine ⟨history.disabled_next step not_now disabled, fun operand => ?_⟩
    rw [history.written_next step, history.storedBit?_eq, Instruction.storedBit?_of_disabled (Or.inr disabled)]
    exact clear operand

/-- No store touches the result register. -/
theorem TapeHistory.result_next (history : TapeHistory (program.tape filled fits) limit past e) {next : Emulator}
    (step : e.StepsTo (program.tape filled fits) next) {i : Instruction} (here : program[e.position]? = some i)
    (store : i.opcode.isStore = true) : next.machine.result = e.machine.result := by
  rw [history.instruction, Option.some.injEq] at here
  subst here
  have reason := step.cases
  generalize next.machine = m at reason
  cases reason with
  | skipped skip | waited clear final | answered clear final => rfl
  | executed clear ordinary => exact Machine.step_result_of_store store e.machine

/-- A store that takes effect changes nothing but the register of its operand. -/
theorem TapeHistory.store_next (history : TapeHistory (program.tape filled fits) limit past e) {next : Emulator}
    (step : e.StepsTo (program.tape filled fits) next) {operand : Operand} {bit : Bool}
    (stored : e.storedBit? program operand = some bit) : next.machine = e.machine.write operand bit := by
  rw [history.storedBit?_eq] at stored
  have reason := step.cases
  generalize next.machine = m at reason
  cases reason with
  | skipped skip =>
    rw [Instruction.storedBit?_of_disabled (Or.inl skip)] at stored
    cases stored
  | executed clear ordinary => exact Machine.step_of_storedBit stored
  | waited clear final | answered clear final =>
    have other : ((program.tape filled fits).instructionAt e.position).opcode.isStore = false := by rw [final]; rfl
    rw [Instruction.storedBit?_of_not_store other] at stored
    cases stored

end Histories

theorem Machine.testBit_outputWord (m : Machine) (place : Nat) :
    m.outputWord.testBit place = (m.outputs.toList ++ m.scratch.toList)[place]?.getD false := by
  rw [Machine.outputWord, testBit_foldl_bits, Machine.outputBits, List.reverse_append, List.reverse_reverse,
    List.reverse_reverse]

/-- The output word consists of the scratch bits above the outputs. -/
theorem Machine.testBit_outputPlace (m : Machine) (operand : Operand) :
    m.outputWord.testBit operand.outputPlace = m.written operand := by
  have width : m.outputs.toList.length = 8 := m.outputs.length_toList
  rw [Machine.testBit_outputWord]
  cases operand with
  | scratch index =>
    rw [Operand.outputPlace, List.getElem?_append_right (by omega), width, Nat.add_sub_cancel_left,
      Vector.getElem?_toList, Vector.getElem?_eq_getElem index.isLt]
    rfl
  | channel index =>
    rw [Operand.outputPlace, List.getElem?_append_left (by omega), Vector.getElem?_toList,
      Vector.getElem?_eq_getElem index.isLt]
    rfl

theorem Machine.outputWord_eq_zero {m : Machine} (clear : ∀ operand, m.written operand = false) :
    m.outputWord = 0 := by
  apply Nat.eq_of_testBit_eq
  intro place
  rw [Nat.zero_testBit]
  by_cases output : place < 8
  · have bit := m.testBit_outputPlace (.channel ⟨place, output⟩)
    rwa [clear] at bit
  by_cases scratch : place < 16
  · have bit := m.testBit_outputPlace (.scratch ⟨place - 8, by omega⟩)
    have same : 8 + (place - 8) = place := by omega
    rwa [clear, Operand.outputPlace, same] at bit
  · have width : (m.outputs.toList ++ m.scratch.toList).length = 16 := by
      rw [List.length_append, Vector.length_toList, Vector.length_toList]
    rw [Machine.testBit_outputWord, List.getElem?_eq_none (by omega), Option.getD_none]

theorem latestStore_of_unnamed {program : Program} {operand : Operand}
    (unnamed : ∀ i ∈ program, i.opcode.isStore = true → i.operand ≠ operand) (past : List Emulator) :
    latestStore program past operand = false := by
  have none_stored : past.filterMap (Emulator.storedBit? program operand) = [] := by
    rw [List.filterMap_eq_nil_iff]
    intro e _
    rw [Emulator.storedBit?, Option.bind_eq_none_iff]
    intro i here
    cases store : i.opcode.isStore with
    | false => exact Instruction.storedBit?_of_not_store store e.machine operand
    | true =>
      have apart := unnamed i (List.mem_of_getElem? here) store
      rw [Instruction.storedBit?, if_neg fun effective => apart effective.2.2]
  rw [latestStore, none_stored, List.getLast?_nil, Option.getD_none]

/-- In every state of a run from the beginning, each scratch bit and each output holds the bit of the latest store to
it that took effect, and is clear if there was none; the output word shows these bits. So the registers that no store
of the program names stay clear, and all of them do in a run where no `OEN` read a set bit. No store changes the
result register, and a store to a channel, the first one included, changes nothing but its output. The outcome
of a run shows its last state. -/
theorem outputs_hold_latest_stores (program : Program) {σ : Type} (source : StateM σ (Option UInt8)) (s : σ)
    (limit : Nat) :
    let past := fetchedStates program source s limit
    let last := stateAfter program source s limit
    (∀ operand, last.machine.written operand = latestStore program past operand) ∧
    (∀ operand : Operand, last.machine.outputWord.testBit operand.outputPlace = last.machine.written operand) ∧
    (∀ operand : Operand, (∀ i ∈ program, i.opcode.isStore = true → i.operand ≠ operand) →
      last.machine.outputWord.testBit operand.outputPlace = false) ∧
    ((∀ e ∈ past, ¬e.EnablesOutputs program) → last.machine.outputWord = 0) ∧
    ((past ++ [last]).IsChain fun before after =>
      (∀ i, program[before.position]? = some i → i.opcode.isStore = true →
        after.machine.result = before.machine.result) ∧
      ∀ index bit, before.storedBit? program (.channel index) = some bit →
        after.machine = { before.machine with outputs := before.machine.outputs.assign index bit }) ∧
    ∀ outcome, ((({} : Emulator).execute program limit source).run s).1.1 = .ok outcome →
      outcome.machine = last.machine := by
  intro past last
  have written : ∀ operand, last.machine.written operand = latestStore program past operand := by
    rcases fetchedStates_cases program source s limit with ⟨nothing, new⟩ | ⟨filled, fits, history⟩
    · intro operand
      simp only [last, past, nothing, new]
      exact Machine.written_new operand
    · exact history.written
  refine ⟨written, last.machine.testBit_outputPlace, ?_, ?_, ?_, ?_⟩
  · intro operand unnamed
    rw [Machine.testBit_outputPlace, written, latestStore_of_unnamed unnamed]
  · intro never
    apply Machine.outputWord_eq_zero
    rcases fetchedStates_cases program source s limit with ⟨-, new⟩ | ⟨filled, fits, history⟩
    · simp only [last, new]
      exact Machine.written_new
    · exact (history.nothing_written never).2
  · rcases fetchedStates_cases program source s limit with ⟨nothing, -⟩ | ⟨filled, fits, history⟩
    · simp only [past, nothing]
      exact .singleton _
    · apply history.isChain
      intro past e next history step
      refine ⟨fun i here store => history.result_next step here store, fun index bit stored => ?_⟩
      exact history.store_next step stored
  · intro outcome ok
    exact Emulator.machine_of_ok ok

end OneBit
