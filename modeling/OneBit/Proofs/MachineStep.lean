import OneBit.Emulator

namespace OneBit

/-- A store leaves all registers but the scratch bits and the outputs as they are. -/
theorem Machine.store_eq (m : Machine) (operand : Operand) (bit : Bool) :
    ∃ scratch outputs, m.store operand bit = { m with scratch := scratch, outputs := outputs } := by
  unfold Machine.store
  split
  · cases operand with
    | scratch index => exact ⟨m.scratch.assign index bit, m.outputs, rfl⟩
    | channel index => exact ⟨m.scratch, m.outputs.assign index bit, rfl⟩
  · exact ⟨m.scratch, m.outputs, rfl⟩

@[simp]
theorem Machine.store_inputs (m : Machine) (operand : Operand) (bit : Bool) :
    (m.store operand bit).inputs = m.inputs := by
  obtain ⟨scratch, outputs, same⟩ := m.store_eq operand bit
  rw [same]

@[simp]
theorem Machine.store_skip (m : Machine) (operand : Operand) (bit : Bool) :
    (m.store operand bit).skip = m.skip := by
  obtain ⟨scratch, outputs, same⟩ := m.store_eq operand bit
  rw [same]

@[simp]
theorem Machine.store_outputEnable (m : Machine) (operand : Operand) (bit : Bool) :
    (m.store operand bit).outputEnable = m.outputEnable := by
  obtain ⟨scratch, outputs, same⟩ := m.store_eq operand bit
  rw [same]

@[simp]
theorem Machine.store_result (m : Machine) (operand : Operand) (bit : Bool) :
    (m.store operand bit).result = m.result := by
  obtain ⟨scratch, outputs, same⟩ := m.store_eq operand bit
  rw [same]

/-- Only requests load the inputs. -/
@[simp]
theorem Machine.step_inputs (m : Machine) (i : Instruction) : (m.step i).inputs = m.inputs := by
  unfold Machine.step Machine.apply
  cases i.opcode with
  | sto => exact m.store_inputs _ _
  | stoc => exact m.store_inputs _ _
  | _ => rfl

/-- Only two instructions touch the skip flag, and one of them only sets it if the result is clear. -/
theorem Machine.step_skip (m : Machine) (i : Instruction) (clear : m.skip = false) :
    (m.step i).skip = true ↔ i.opcode = .rtn ∨ i.opcode = .skz ∧ m.result = false := by
  unfold Machine.step Machine.apply
  cases i.opcode with
  | sto | stoc => simp [clear]
  | rtn => simp only [true_or]
  | skz => simp only [Bool.not_eq_true', reduceCtorEq, true_and, false_or]
  | add | sub => simp only [Machine.addBit, clear, reduceCtorEq, false_and, or_false]
  | _ => simp only [clear, reduceCtorEq, false_and, or_false]

/-- Outputs become enabled only by an `OEN` that reads a set bit. -/
theorem Machine.step_outputEnable (m : Machine) (i : Instruction) (enabled : (m.step i).outputEnable = true) :
    m.outputEnable = true ∨ i.opcode = .oen ∧ m.read i.operand = true := by
  unfold Machine.step Machine.apply at enabled
  revert enabled
  cases i.opcode with
  | sto | stoc => exact fun enabled => Or.inl (by rwa [Machine.store_outputEnable] at enabled)
  | oen => exact fun enabled => Or.inr ⟨rfl, enabled⟩
  | _ => exact fun enabled => Or.inl enabled

theorem Machine.get_loadInputs (m : Machine) (bits : UInt8) (index : Fin 8) :
    (m.loadInputs bits).inputs.get index =
      if index.val = 0 then m.inputs.get index else bits.toNat.testBit (index.val - 1) := by
  change (Vector.ofFn _)[index.val] = _
  rw [Vector.getElem_ofFn]

/-- What a fetch leads to, and why. -/
inductive Emulator.FetchCase (tape : Tape) (e : Emulator) : Fetch → Prop
  | skipped : e.machine.skip = true →
      FetchCase tape e (.went ⟨{ e.machine with skip := false }, (e.position + 1) % tape.size, e.steps + 1⟩)
  | halted : e.machine.skip = false → (tape.instructionAt e.position).opcode = .nopf →
      (e.position + 1) % tape.size = 0 →
      FetchCase tape e (.halt ⟨e.machine, (e.position + 1) % tape.size, e.steps + 1⟩)
  | requested : e.machine.skip = false → (tape.instructionAt e.position).opcode = .nopf →
      (e.position + 1) % tape.size ≠ 0 →
      FetchCase tape e (.request ⟨e.machine, (e.position + 1) % tape.size, e.steps + 1⟩)
  | executed : e.machine.skip = false → (tape.instructionAt e.position).opcode ≠ .nopf →
      FetchCase tape e
        (.went ⟨e.machine.step (tape.instructionAt e.position), (e.position + 1) % tape.size, e.steps + 1⟩)

theorem Emulator.fetch_cases (tape : Tape) (e : Emulator) : e.FetchCase tape (e.fetch tape) := by
  unfold Emulator.fetch
  cases skip : e.machine.skip with
  | true => exact .skipped skip
  | false =>
    simp only [Bool.false_eq_true, if_false]
    by_cases final : (tape.instructionAt e.position).opcode = .nopf
    · rw [if_pos final]
      by_cases around : (e.position + 1) % tape.size = 0
      · rw [if_pos around]
        exact .halted skip final around
      · rw [if_neg around]
        exact .requested skip final around
    · rw [if_neg final]
      exact .executed skip final

/-- An instruction makes the next one skipped if it is executed, and is `RTN`, or `SKZ` on a clear result. -/
def Emulator.SkipsNext (tape : Tape) (e : Emulator) : Prop :=
  e.machine.skip = false ∧ ((tape.instructionAt e.position).opcode = .rtn ∨
    (tape.instructionAt e.position).opcode = .skz ∧ e.machine.result = false)

/-- A fetch loads no inputs; that is left to the answer of a request. -/
theorem Emulator.inputs_after_fetch (tape : Tape) (e : Emulator) :
    (e.fetch tape).emulator.machine.inputs = e.machine.inputs := by
  generalize fetched : e.fetch tape = f
  have reason := e.fetch_cases tape
  rw [fetched] at reason
  cases reason with
  | skipped skip => rfl
  | halted skip final around => rfl
  | requested skip final around => rfl
  | executed skip ordinary => exact e.machine.step_inputs _

end OneBit
