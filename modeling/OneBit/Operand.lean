import OneBit.DecodeError

namespace OneBit

/-- A scratch bit is read and written. A channel leads to different places: channel 0 reads the result
register and writes the first output, and channel `k` reads input `k` and writes output `k`. -/
inductive Operand where
  | scratch (index : Fin 8)
  | channel (index : Fin 8)
  deriving DecidableEq, Repr

def Operand.ofNibble (nibble : Fin 16) : Operand :=
  if small : nibble.val < 8 then .scratch ⟨nibble.val, small⟩
  else .channel ⟨nibble.val - 8, by omega⟩

/-- The number of an operand, which is the low half of an instruction's byte. -/
def Operand.value : Operand → Fin 16
  | .scratch index => ⟨index.val, by omega⟩
  | .channel index => ⟨index.val + 8, by omega⟩

def Operand.ofByte? (byte : UInt8) : Except DecodeError Operand :=
  if small : byte.toNat < 16 then .ok (.ofNibble ⟨byte.toNat, small⟩)
  else .error (.operandOutOfRange byte)

/-- The name of what an operand reads. -/
def Operand.readName : Operand → Text
  | .scratch index => 'S' :: 'R' :: decimal index
  | .channel index => if index.val = 0 then ['R', 'R'] else 'I' :: 'R' :: decimal index

/-- The name of what an operand writes. -/
def Operand.writeName : Operand → Text
  | .scratch index => 'S' :: 'R' :: decimal index
  | .channel index => 'O' :: 'R' :: decimal index

def Operand.all : List Operand := (List.finRange 16).map .ofNibble

/-- An operand answers to both its names, whatever the instruction does with it. -/
def Operand.ofName? (name : Text) : Option Operand :=
  Operand.all.find? fun r => r.readName == name || r.writeName == name

@[simp]
theorem Operand.ofNibble_value (r : Operand) : Operand.ofNibble r.value = r := by
  cases r with
  | scratch index => simp [Operand.value, Operand.ofNibble]
  | channel index => simp [Operand.value, Operand.ofNibble]

@[simp]
theorem Operand.value_ofNibble (nibble : Fin 16) : (Operand.ofNibble nibble).value = nibble := by
  revert nibble
  decide

theorem Operand.ofName?_readName (r : Operand) : Operand.ofName? r.readName = some r := by
  rw [← r.ofNibble_value]
  generalize r.value = nibble
  revert nibble
  decide

theorem Operand.ofName?_writeName (r : Operand) : Operand.ofName? r.writeName = some r := by
  rw [← r.ofNibble_value]
  generalize r.value = nibble
  revert nibble
  decide

/-- Eight scratch bits with one name and eight channels with two make twenty-four names. -/
example : (Operand.all.flatMap fun r => [r.readName, r.writeName]).eraseDups.length = 24 := by decide

end OneBit
