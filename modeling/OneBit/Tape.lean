import OneBit.Text.Numeral
import OneBit.Machine
import OneBit.Program

namespace OneBit

/-- The longest tape that the reader holds. -/
def tapeCapacity : Nat := 4096

/-- A loop of instructions: the last one is followed by the first. -/
structure Tape where
  code : Array Instruction
  nonempty : 0 < code.size
  fits : code.size ≤ tapeCapacity

def Tape.size (tape : Tape) : Nat := tape.code.size

/-- The instruction at a position, counted around the loop. -/
def Tape.instructionAt (tape : Tape) (position : Nat) : Instruction :=
  have inside : position % tape.code.size < tape.code.size := Nat.mod_lt _ tape.nonempty
  tape.code[position % tape.code.size]

inductive Stop where
  /-- The last instruction of the tape was executed, and it was `NOPF`. -/
  | halted
  /-- The tape asked for inputs and there were none left. -/
  | inputsExhausted
  deriving DecidableEq, Repr

structure Outcome where
  stop : Stop
  steps : Nat
  machine : Machine
  deriving DecidableEq, Repr

inductive RunError where
  | emptyTape
  | tapeTooLong (length : Nat)
  | stepLimitExceeded (limit : Nat)
  deriving DecidableEq, Repr

def RunError.message : RunError → String
  | .emptyTape => "empty tape"
  | .tapeTooLong length =>
    "tape of " ++ String.ofList (decimal length) ++ " instructions exceeds the maximum of " ++
      String.ofList (decimal tapeCapacity)
  | .stepLimitExceeded limit => "no halt after " ++ String.ofList (decimal limit) ++ " steps"

def Tape.ofProgram? (p : Program) : Except RunError Tape :=
  let code := p.toArray
  if nonempty : 0 < code.size then
    if fits : code.size ≤ tapeCapacity then .ok ⟨code, nonempty, fits⟩
    else .error (.tapeTooLong code.size)
  else .error .emptyTape

end OneBit
