import OneBit.Text.Numeral

namespace OneBit

/-- Opcodes and operands are numbered by four bits; a byte above them is out of range. -/
inductive DecodeError where
  | opcodeOutOfRange (value : UInt8)
  | operandOutOfRange (value : UInt8)
  deriving DecidableEq, Repr

def DecodeError.message : DecodeError → String
  | .opcodeOutOfRange value => text "opcode" value
  | .operandOutOfRange value => text "register" value
where
  text (field : String) (value : UInt8) : String :=
    field ++ " value out of range: 0x" ++ String.ofList (hexadecimal 2 value.toNat) ++
      " (must be 0x00-0x0f)"

end OneBit
