import OneBit.Opcode
import OneBit.Operand

namespace OneBit

structure Instruction where
  opcode : Opcode
  operand : Operand
  deriving DecidableEq, Repr

def Instruction.encode (i : Instruction) : UInt8 :=
  UInt8.ofNat (i.opcode.value * 16 + i.operand.value)

def Instruction.decode (byte : UInt8) : Instruction where
  opcode := .ofNibble ⟨byte.toNat / 16, by have := byte.toNat_lt; omega⟩
  operand := .ofNibble ⟨byte.toNat % 16, by omega⟩

/-- A store names what it writes, and every other instruction what it reads. -/
def Instruction.operandName (i : Instruction) : Text :=
  if i.opcode.isStore then i.operand.writeName else i.operand.readName

def Instruction.text (i : Instruction) : Text :=
  i.opcode.mnemonic ++ ' ' :: i.operandName

theorem Instruction.toNat_encode (i : Instruction) :
    i.encode.toNat = i.opcode.value * 16 + i.operand.value := by
  simp only [Instruction.encode, UInt8.toNat_ofNat']
  omega

@[simp]
theorem Instruction.decode_encode (i : Instruction) : Instruction.decode i.encode = i := by
  have high : (i.opcode.value.val * 16 + i.operand.value.val) / 16 = i.opcode.value.val := by omega
  have low : (i.opcode.value.val * 16 + i.operand.value.val) % 16 = i.operand.value.val := by omega
  simp only [Instruction.decode, Instruction.toNat_encode, high, low, Fin.eta,
    Opcode.ofNibble_value, Operand.ofNibble_value]

@[simp]
theorem Instruction.encode_decode (byte : UInt8) : (Instruction.decode byte).encode = byte := by
  apply UInt8.toNat_inj.mp
  simp only [Instruction.toNat_encode, Instruction.decode, Opcode.value_ofNibble,
    Operand.value_ofNibble]
  omega

end OneBit
