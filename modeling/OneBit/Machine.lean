import OneBit.Text.Blank
import OneBit.Instruction

namespace OneBit

abbrev Bank := Vector Bool 8

def Bank.assign (bank : Bank) (index : Fin 8) (bit : Bool) : Bank := bank.set index.val bit index.isLt

/-- Every register is one bit. While `inputEnable` is clear, data counts as 0 in logic and arithmetic,
and while `outputEnable` is clear, stores have no effect. The first input is never read, because its
operand reads the result register. -/
structure Machine where
  inputEnable : Bool := false
  outputEnable : Bool := false
  /-- Set when the next instruction is to be skipped. -/
  skip : Bool := false
  result : Bool := false
  carry : Bool := false
  scratch : Bank := .replicate 8 false
  outputs : Bank := .replicate 8 false
  inputs : Bank := .replicate 8 false
  deriving DecidableEq, Repr, Inhabited

def Machine.read (m : Machine) : Operand → Bool
  | .scratch index => m.scratch.get index
  | .channel index => if index.val = 0 then m.result else m.inputs.get index

def Machine.write (m : Machine) (operand : Operand) (bit : Bool) : Machine :=
  match operand with
  | .scratch index => { m with scratch := m.scratch.assign index bit }
  | .channel index => { m with outputs := m.outputs.assign index bit }

/-- Input `k` takes bit `k - 1` of the value, for `k` from 1 to 7. -/
def Machine.loadInputs (m : Machine) (bits : UInt8) : Machine :=
  { m with
    inputs := .ofFn fun index =>
      if index.val = 0 then m.inputs.get index else bits.toNat.testBit (index.val - 1) }

/-- Adds a bit and the carry to the result register: the sum's low bit stays there, and its high bit
becomes the carry. -/
def Machine.addBit (m : Machine) (bit : Bool) : Machine :=
  { m with
    result := m.result ^^ bit ^^ m.carry
    carry := m.result && bit || m.carry && (m.result ^^ bit) }

def Machine.store (m : Machine) (operand : Operand) (bit : Bool) : Machine :=
  if m.outputEnable then m.write operand bit else m

/-- Carries out an instruction on the bit that its operand reads. `IEN` and `OEN` take that bit as it
is, and all other instructions that use it take it only while inputs are enabled. Requests for inputs and
halting are left to the tape. -/
def Machine.apply (m : Machine) (i : Instruction) (data : Bool) : Machine :=
  let gated := data && m.inputEnable
  match i.opcode with
  | .nop0 | .ioc | .nopf => m
  | .ld => { m with result := gated }
  | .add => m.addBit gated
  | .sub => m.addBit (!gated)
  | .one => { m with result := true, carry := false }
  | .nand => { m with result := !(m.result && gated) }
  | .or => { m with result := m.result || gated }
  | .xor => { m with result := m.result ^^ gated }
  | .sto => m.store i.operand m.result
  | .stoc => m.store i.operand (!m.result)
  | .ien => { m with inputEnable := data }
  | .oen => { m with outputEnable := data }
  | .rtn => { m with skip := true }
  | .skz => { m with skip := !m.result }

def Machine.step (m : Machine) (i : Instruction) : Machine := m.apply i (m.read i.operand)

/-- The visible result, highest bit first: scratch bits 7 to 0 above outputs 7 to 0. -/
def Machine.outputBits (m : Machine) : List Bool :=
  m.scratch.toList.reverse ++ m.outputs.toList.reverse

def Machine.outputWord (m : Machine) : Nat :=
  m.outputBits.foldl (fun word bit => 2 * word + bit.toNat) 0

/-- The visible result as binary digits in groups of four. -/
def Machine.render (m : Machine) : Text :=
  let digits := m.outputBits.map fun bit => if bit then '1' else '0'
  digits.take 4 ++ ' ' :: (digits.drop 4).take 4 ++ ' ' :: (digits.drop 8).take 4 ++
    ' ' :: digits.drop 12

theorem Bank.get_assign (bank : Bank) (index other : Fin 8) (bit : Bool) :
    (bank.assign index bit).get other = if other = index then bit else bank.get other := by
  change (bank.set index.val bit index.isLt)[other.val] =
    if other = index then bit else bank[other.val]
  simp only [Vector.getElem_set, Fin.ext_iff, eq_comm]

/-- The sum of three bits is two bits wide. -/
theorem Machine.addBit_sum (m : Machine) (bit : Bool) :
    (m.addBit bit).result.toNat + 2 * (m.addBit bit).carry.toNat =
      m.result.toNat + bit.toNat + m.carry.toNat := by
  simp only [Machine.addBit]
  cases m.result <;> cases bit <;> cases m.carry <;> rfl

end OneBit
