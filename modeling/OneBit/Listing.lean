import OneBit.SourceLine

namespace OneBit

/-- A line that became an instruction is listed with its trimmed text, any other one as written. -/
inductive ListingLine where
  | emitted (address : Nat) (byte : UInt8) (line : Nat) (text : Text)
  | skipped (line : Nat) (raw : Text)
  deriving DecidableEq, Repr

/-- Address and byte take sixteen columns, blank for a skipped line, and the line number at least
eight. The text follows without a separator. -/
def ListingLine.render : ListingLine → Text
  | .emitted address byte line text =>
    capitalHexadecimal 4 address ++ ':' :: ' ' :: capitalHexadecimal 2 byte.toNat ++
      List.replicate 8 ' ' ++ (decimal line).rightpad 8 ' ' ++ text
  | .skipped line raw => List.replicate 16 ' ' ++ (decimal line).rightpad 8 ' ' ++ raw

example : (ListingLine.emitted 26 0x8B 12 "sto or3".toList).render =
    "001A: 8B        12      sto or3".toList := by decide

end OneBit
