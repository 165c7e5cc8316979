import OneBit.Text.UpperCase
import OneBit.Instruction

namespace OneBit

/-- What the line of a source asks for, in the words in which it was written. -/
structure Statement where
  opcode : Text
  operand : Option Text
  extra : Option Text
  deriving DecidableEq, Repr

/-- An empty line and one that begins with a comment have no statement. Any other line is read up to its
first semicolon, where a comment begins, and has none if there are no words before it. Of more than three
words only the first three matter. -/
def Statement.ofText? (t : Text) : Option Statement :=
  if t.isEmpty || t.head? = some ';' then none
  else match Text.words (t.takeWhile (· ≠ ';')) with
    | [] => none
    | opcode :: rest => some ⟨opcode, rest[0]?, rest[1]?⟩

inductive Fault where
  | unknownOpcode
  | unknownOperand
  | unexpectedToken
  deriving DecidableEq, Repr

def Fault.description : Fault → String
  | .unknownOpcode => "unknown opcode"
  | .unknownOperand => "unknown operand"
  | .unexpectedToken => "unexpected token"

/-- A word names an opcode if its capitals do. -/
def Opcode.ofWord? (word : Text) : Option Opcode := Opcode.ofName? word.upper

/-- A word names an operand if its capitals do. -/
def Operand.ofWord? (word : Text) : Option Operand := Operand.ofName? word.upper

/-- The operand of a statement; without a word for it, the first scratch bit. -/
def Statement.operand? (s : Statement) : Except (Fault × Text) Operand :=
  match s.operand with
  | none => .ok (.scratch ⟨0, by decide⟩)
  | some word => match Operand.ofWord? word with
    | some operand => .ok operand
    | none => .error (.unknownOperand, word)

/-- The instruction of a statement, or its first fault from the left and the word at fault. -/
def Statement.instruction? (s : Statement) : Except (Fault × Text) Instruction :=
  match Opcode.ofWord? s.opcode with
  | none => .error (.unknownOpcode, s.opcode)
  | some opcode => match s.operand? with
    | .error fault => .error fault
    | .ok operand => match s.extra with
      | none => .ok ⟨opcode, operand⟩
      | some word => .error (.unexpectedToken, word)

end OneBit
