import OneBit.Text.Lines
import OneBit.Statement

namespace OneBit

structure SourceLine where
  number : Nat
  raw : Text
  deriving DecidableEq, Repr

def SourceLine.text (line : SourceLine) : Text := line.raw.trim

/-- The lines of a source, numbered from one. -/
def sourceLines (source : Text) : List SourceLine :=
  (source.lines.zipIdx 1).map fun (raw, number) => ⟨number, raw⟩

/-- A refused line, with the word at fault as it was written. -/
structure SourceError where
  fault : Fault
  line : Nat
  text : Text
  token : Text
  deriving DecidableEq, Repr

def SourceError.message (e : SourceError) : String :=
  "line " ++ String.ofList (decimal e.line) ++ ": " ++ e.fault.description ++
    " '" ++ String.ofList e.token ++ "' in \"" ++ String.ofList e.text ++ "\""

/-- What becomes of a source line: nothing, one instruction, or one error. -/
inductive Verdict where
  | skip
  | emit (instruction : Instruction)
  | reject (error : SourceError)
  deriving DecidableEq, Repr

/-- The verdict on a line depends on no other line. -/
def SourceLine.verdict (line : SourceLine) : Verdict :=
  match Statement.ofText? line.text with
  | none => .skip
  | some statement => match statement.instruction? with
    | .ok instruction => .emit instruction
    | .error (fault, token) => .reject ⟨fault, line.number, line.text, token⟩

end OneBit
