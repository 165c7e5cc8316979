import OneBit.Usage
import OneBit.Listing
import OneBit.Program

namespace OneBit

/-- With `listing` set, every source line is listed. -/
structure AssemblyOptions where
  listing : Bool := false
  deriving DecidableEq, Repr

structure Assembly where
  program : Program
  usage : Usage
  listing : List ListingLine
  deriving DecidableEq, Repr

/-- An assembly under way, after the lines fed so far. The address is where the next instruction goes. -/
structure Session where
  options : AssemblyOptions
  address : Nat := 0
  instructions : Array Instruction := #[]
  usage : Usage := {}
  listing : Array ListingLine := #[]
  errors : Array SourceError := #[]

def Session.list (s : Session) (line : ListingLine) : Session :=
  if s.options.listing then { s with listing := s.listing.push line } else s

def Session.emit (s : Session) (i : Instruction) : Session :=
  { s with
    address := s.address + 1
    instructions := s.instructions.push i
    usage := s.usage.record i.opcode }

/-- Takes in one line. A refused line is not listed, because its source yields no listing. -/
def Session.feed (s : Session) (line : SourceLine) : Session :=
  match line.verdict with
  | .skip => s.list (.skipped line.number line.raw)
  | .emit i => (s.list (.emitted s.address i.encode line.number line.text)).emit i
  | .reject error => { s with errors := s.errors.push error }

def Session.feedAll (s : Session) (lines : List SourceLine) : Session := lines.foldl .feed s

/-- All the errors in the order of their lines, or the assembly if there is none. -/
def Session.finish (s : Session) : Except (List SourceError) Assembly :=
  if s.errors.isEmpty then .ok ⟨s.instructions.toList, s.usage, s.listing.toList⟩
  else .error s.errors.toList

def assemble (options : AssemblyOptions) (source : Text) : Except (List SourceError) Assembly :=
  (Session.feedAll { options } (sourceLines source)).finish

end OneBit
