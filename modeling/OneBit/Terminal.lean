import OneBit.InputBits

namespace OneBit

/-- The lines of a stream of bytes, each with the line feed that ends it. The last one may lack it. -/
def byteLines : List UInt8 → List (List UInt8)
  | [] => []
  | byte :: rest =>
    if byte = 10 then [byte] :: byteLines rest
    else match byteLines rest with
      | [] => [[byte]]
      | line :: lines => (byte :: line) :: lines

def decodeText? (bytes : List UInt8) : Option Text :=
  (String.fromUTF8? bytes.toByteArray).map String.toList

/-- What a line says in answer to a request. A line that is not UTF-8 ends the inputs. -/
inductive Reply where
  | value (bits : UInt8)
  | unreadable
  | refused (error : InputBitsError)
  deriving DecidableEq, Repr

/-- The line's end is a blank, so it does not count. -/
def Reply.ofLine (line : List UInt8) : Reply :=
  match decodeText? line with
  | none => .unreadable
  | some given => match parseInputBits given with
    | .ok bits => .value bits
    | .error error => .refused error

def inputPrompt : String := "Enter IR: "

/-- A refused line is quoted with its line feed. -/
def InputBitsError.complaint (error : InputBitsError) : String := "error: " ++ error.message ++ "\n"

/-- A terminal: the lines still to be read, and what was printed on its two channels. -/
structure Terminal where
  pending : List (List UInt8) := []
  out : String := ""
  err : String := ""
  deriving DecidableEq, Repr

def Terminal.ofBytes (data : List UInt8) : Terminal where
  pending := byteLines data

def Terminal.ask : List (List UInt8) → String → String → Option UInt8 × Terminal
  | [], out, err => (none, ⟨[], out ++ inputPrompt, err⟩)
  | line :: rest, out, err => match Reply.ofLine line with
    | .value bits => (some bits, ⟨rest, out ++ inputPrompt, err⟩)
    | .unreadable => (none, ⟨rest, out ++ inputPrompt, err⟩)
    | .refused error => Terminal.ask rest (out ++ inputPrompt) (err ++ error.complaint)

def Terminal.nextInputs : StateM Terminal (Option UInt8) := fun t =>
  Terminal.ask t.pending t.out t.err

end OneBit
