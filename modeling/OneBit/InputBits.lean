import OneBit.Text.Blank

namespace OneBit

/-- Why a text is no value for the inputs. The text is quoted as it was given. -/
inductive InputBitsError where
  | wrongLength (given : Text)
  | notBinary (given : Text)
  deriving DecidableEq, Repr

def InputBitsError.message : InputBitsError → String
  | .wrongLength given => "expected 1 to 7 binary digits, got '" ++ String.ofList given ++ "'"
  | .notBinary given => "not a binary number: '" ++ String.ofList given ++ "'"

def Text.utf8Length (t : Text) : Nat := t.foldl (fun length c => length + c.utf8Size) 0

/-- The number that binary digits stand for, highest first; any character but `1` counts as 0. -/
def binaryValue (digits : Text) : Nat :=
  digits.foldl (fun value digit => 2 * value + if digit = '1' then 1 else 0) 0

def isBinaryDigit (c : Char) : Bool := c == '0' || c == '1'

/-- The byte of a binary numeral. It may have a plus sign before its digits, and there is none if the value takes more
than eight bits. -/
def binaryByte? (numeral : Text) : Option UInt8 :=
  let digits := if numeral.head? = some '+' then numeral.tail else numeral
  if digits ≠ [] ∧ digits.all isBinaryDigit ∧ binaryValue digits < 256 then
    some (UInt8.ofNat (binaryValue digits))
  else none

/-- One to seven binary digits, with blanks around them allowed. The length is judged first, and in
bytes, so a text of few but wide characters has the wrong length. -/
def parseInputBits (given : Text) : Except InputBitsError UInt8 :=
  let digits := given.trim
  if digits = [] ∨ 7 < digits.utf8Length then .error (.wrongLength given)
  else if digits.all isBinaryDigit then
    match binaryByte? digits with
    | some bits => .ok bits
    | none => .error (.notBinary given)
  else .error (.notBinary given)

end OneBit
