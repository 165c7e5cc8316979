import OneBit.Tape

namespace OneBit

def defaultStepLimit : Nat := 10000000

/-- A processor at a tape: the position of the next instruction, and how many instructions were
fetched, skipped ones included. -/
structure Emulator where
  machine : Machine := {}
  position : Nat := 0
  steps : Nat := 0
  deriving DecidableEq, Repr, Inhabited

/-- What a fetch leads to. The tape has moved on in each case. -/
inductive Fetch where
  | went (next : Emulator)
  | request (next : Emulator)
  | halt (next : Emulator)

/-- Fetches the next instruction and skips it, executes it, or leaves it to the run. Skipping comes
first, so a skipped `NOPF` neither halts nor asks for inputs. -/
def Emulator.fetch (tape : Tape) (e : Emulator) : Fetch :=
  let i := tape.instructionAt e.position
  let position := (e.position + 1) % tape.size
  let steps := e.steps + 1
  if e.machine.skip then .went ⟨{ e.machine with skip := false }, position, steps⟩
  else if i.opcode = .nopf then
    if position = 0 then .halt ⟨e.machine, position, steps⟩
    else .request ⟨e.machine, position, steps⟩
  else .went ⟨e.machine.step i, position, steps⟩

def Fetch.emulator : Fetch → Emulator
  | .went next | .request next | .halt next => next

/-- Every fetch moves the tape on by one position around the loop, skipped instructions included. -/
theorem Emulator.fetch_position (tape : Tape) (e : Emulator) :
    (e.fetch tape).emulator.position = (e.position + 1) % tape.size := by
  unfold Emulator.fetch
  dsimp only
  split
  · rfl
  · split
    · split <;> rfl
    · rfl

/-- Every fetch counts, skipped instructions included. -/
theorem Emulator.fetch_steps (tape : Tape) (e : Emulator) :
    (e.fetch tape).emulator.steps = e.steps + 1 := by
  unfold Emulator.fetch
  dsimp only
  split
  · rfl
  · split
    · split <;> rfl
    · rfl

def Emulator.answer (e : Emulator) (bits : UInt8) : Emulator :=
  { e with machine := e.machine.loadInputs bits }

/-- Fetches until the run ends or the budget is spent. Each request takes the next value from the
source of inputs, and a source without a value ends the run after the request was counted. -/
@[specialize]
def Emulator.drive {m : Type → Type} [Monad m] (tape : Tape) (nextInputs : m (Option UInt8)) :
    Nat → Emulator → m (Option Stop × Emulator)
  | 0, e => pure (none, e)
  | budget + 1, e => match e.fetch tape with
    | .went next => Emulator.drive tape nextInputs budget next
    | .halt next => pure (some .halted, next)
    | .request next => do
      match ← nextInputs with
      | none => pure (some .inputsExhausted, next)
      | some bits => Emulator.drive tape nextInputs budget (next.answer bits)

/-- How a run ended, seen from the emulator that it left behind. -/
def Emulator.ending (e : Emulator) (limit : Nat) : Option Stop → Except RunError Outcome
  | none => .error (.stepLimitExceeded limit)
  | some stop => .ok ⟨stop, e.steps, e.machine⟩

/-- Runs a program until `limit` instructions have been fetched since the emulator was new. Position,
registers and count carry over from earlier runs. -/
@[specialize]
def Emulator.execute {m : Type → Type} [Monad m] (program : Program) (limit : Nat)
    (nextInputs : m (Option UInt8)) (e : Emulator) : m (Except RunError Outcome × Emulator) :=
  match Tape.ofProgram? program with
  | .error error => pure (.error error, e)
  | .ok tape => do
    let (stop, e) ← e.drive tape nextInputs (limit - e.steps)
    pure (e.ending limit stop, e)

def nextScripted : StateM (List UInt8) (Option UInt8) :=
  modifyGet fun
    | [] => (none, [])
    | bits :: rest => (some bits, rest)

/-- Executes with the inputs of a list, and leaves those that were not taken. -/
def Emulator.executeScripted (program : Program) (limit : Nat) (inputs : List UInt8) (e : Emulator) :
    (Except RunError Outcome × Emulator) × List UInt8 :=
  (e.execute program limit nextScripted).run inputs

def run (program : Program) (inputs : List UInt8) (limit : Nat) : Except RunError Outcome :=
  (Emulator.executeScripted program limit inputs {}).1.1

end OneBit
