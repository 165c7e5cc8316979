import OneBit.DecodeError

namespace OneBit

inductive Opcode where
  | nop0 | ld | add | sub | one | nand | or | xor
  | sto | stoc | ien | oen | ioc | rtn | skz | nopf
  deriving DecidableEq, Repr, Inhabited

def Opcode.all : Vector Opcode 16 :=
  #v[.nop0, .ld, .add, .sub, .one, .nand, .or, .xor,
    .sto, .stoc, .ien, .oen, .ioc, .rtn, .skz, .nopf]

def Opcode.ofNibble (nibble : Fin 16) : Opcode := Opcode.all[nibble]

/-- The number of an opcode, which is the high half of an instruction's byte. -/
def Opcode.value : Opcode → Fin 16
  | .nop0 => 0 | .ld => 1 | .add => 2 | .sub => 3 | .one => 4 | .nand => 5 | .or => 6 | .xor => 7
  | .sto => 8 | .stoc => 9 | .ien => 10 | .oen => 11 | .ioc => 12 | .rtn => 13 | .skz => 14 | .nopf => 15

def Opcode.ofByte? (byte : UInt8) : Except DecodeError Opcode :=
  if small : byte.toNat < 16 then .ok (.ofNibble ⟨byte.toNat, small⟩)
  else .error (.opcodeOutOfRange byte)

def Opcode.mnemonic : Opcode → Text
  | .nop0 => "NOP0".toList | .ld => "LD".toList | .add => "ADD".toList | .sub => "SUB".toList
  | .one => "ONE".toList | .nand => "NAND".toList | .or => "OR".toList | .xor => "XOR".toList
  | .sto => "STO".toList | .stoc => "STOC".toList | .ien => "IEN".toList | .oen => "OEN".toList
  | .ioc => "IOC".toList | .rtn => "RTN".toList | .skz => "SKZ".toList | .nopf => "NOPF".toList

/-- The names to which an opcode answers. The last instruction of a tape is usually written `HLT`. -/
def Opcode.names : Opcode → List Text
  | .nopf => [Opcode.mnemonic .nopf, "HLT".toList]
  | o => [o.mnemonic]

def Opcode.ofName? (name : Text) : Option Opcode :=
  Opcode.all.toList.find? fun o => o.names.contains name

/-- The stores are the only instructions that write a scratch bit or an output. -/
def Opcode.isStore : Opcode → Bool
  | .sto | .stoc => true
  | _ => false

@[simp]
theorem Opcode.ofNibble_value (o : Opcode) : Opcode.ofNibble o.value = o := by
  cases o <;> rfl

@[simp]
theorem Opcode.value_ofNibble (nibble : Fin 16) : (Opcode.ofNibble nibble).value = nibble := by
  revert nibble
  decide

/-- The name of an opcode leads back to it, so no two opcodes share a name. -/
theorem Opcode.ofName?_of_mem_names (o : Opcode) :
    ∀ name ∈ o.names, Opcode.ofName? name = some o := by
  cases o <;> decide

end OneBit
