import OneBit.Commands

namespace OneBit

/-- Why a command line leads to no command. -/
inductive ArgsStop where
  | help
  | version
  | misuse
  deriving DecidableEq, Repr

/-- What an option does to the arguments read so far, at once or with a value. -/
inductive OptionEffect (α : Type) where
  | flag (set : α → Except ArgsStop α)
  | valued (set : Text → α → Except ArgsStop α)

/-- The options of a command by their letters and by their names, and what it does with operands. -/
structure ArgGrammar (α : Type) where
  short : Char → Option (α → Except ArgsStop α)
  long : String → Option (OptionEffect α)
  operand : String → α → Except ArgsStop α

/-- An argument with a leading dash is an option, except for a dash alone. -/
def isOption (arg : String) : Bool :=
  arg.toList.head? = some '-' && arg ≠ "-"

/-- What an argument does to those before it. An option may be left to take the next argument as its
value. -/
inductive ArgEffect (α : Type) where
  | done (a : α)
  | awaits (set : Text → Except ArgsStop α)

section Scan

variable {α : Type} (g : ArgGrammar α)

/-- Letters after one dash are options each. -/
def ArgGrammar.letters (shorts : List Char) (a : α) : Except ArgsStop α :=
  shorts.foldlM (fun a letter => (g.short letter).elim (.error .misuse) (· a)) a

/-- After two dashes there is one name, and a value may follow an equals sign. -/
def ArgGrammar.named (body : Text) (a : α) : Except ArgsStop (ArgEffect α) :=
  let name := body.takeWhile (· ≠ '=')
  match g.long (String.ofList name), body.drop name.length with
  | some (.flag set), [] => (set a).map .done
  | some (.valued set), [] => .ok (.awaits fun value => set value a)
  | some (.valued set), _ :: value => (set value a).map .done
  | some (.flag _), _ :: _ | none, _ => .error .misuse

def ArgGrammar.effect (arg : String) (a : α) : Except ArgsStop (ArgEffect α) :=
  if isOption arg then match arg.toList with
    | '-' :: '-' :: body => g.named body a
    | shorts => (g.letters shorts.tail a).map .done
  else (g.operand arg a).map .done

/-- Reads options and operands in any order, and stops at the first one that says so. After two dashes
every argument is an operand. A value that is an argument of its own must not be an option. -/
def ArgGrammar.scan : List String → α → Except ArgsStop α
  | [], a => .ok a
  | arg :: rest, a =>
    if arg = "--" then rest.foldlM (fun a arg => g.operand arg a) a
    else match g.effect arg a with
      | .error stop => .error stop
      | .ok (.done a) => scan rest a
      | .ok (.awaits set) => match rest with
        | [] => .error .misuse
        | value :: rest => if isOption value then .error .misuse else (set value.toList).bind (scan rest)

end Scan

def stopAtHelp {α : Type} : α → Except ArgsStop α := fun _ => .error .help

def stopAtVersion {α : Type} : α → Except ArgsStop α := fun _ => .error .version

/-- Operands are paths. None of them is empty, and there is a most of them. -/
def takeOperand (most : Nat) (arg : String) (operands : List String) : Except ArgsStop (List String) :=
  if arg = "" ∨ most ≤ operands.length then .error .misuse else .ok (operands ++ [arg])

/-- The arguments of the assembler, as far as they have been read. -/
structure AssemblerArgs where
  listing : Bool := false
  operands : List String := []
  deriving DecidableEq, Repr

/-- The listing can be asked for once. -/
def AssemblerArgs.setListing (a : AssemblerArgs) : Except ArgsStop AssemblerArgs :=
  if a.listing then .error .misuse else .ok { a with listing := true }

def AssemblerArgs.grammar : ArgGrammar AssemblerArgs where
  short letter :=
    if letter = 'l' then some AssemblerArgs.setListing
    else if letter = 'h' then some stopAtHelp
    else if letter = 'V' then some stopAtVersion
    else none
  long name :=
    if name = "listing" then some (.flag AssemblerArgs.setListing)
    else if name = "help" then some (.flag stopAtHelp)
    else if name = "version" then some (.flag stopAtVersion)
    else none
  operand arg a := (takeOperand 2 arg a.operands).map fun operands => { a with operands }

/-- The assembler takes the path of a source and the path of a tape. -/
structure AssemblerCommand where
  options : AssemblyOptions
  input : String
  output : String
  deriving DecidableEq, Repr

def AssemblerCommand.parse (args : List String) : Except ArgsStop AssemblerCommand :=
  match AssemblerArgs.grammar.scan args {} with
  | .error stop => .error stop
  | .ok ⟨listing, [input, output]⟩ => .ok ⟨⟨listing⟩, input, output⟩
  | .ok _ => .error .misuse

/-- A count of steps: decimal digits, with a plus sign allowed before them, of a value that fits in 64
bits. -/
def parseStepLimit? (arg : Text) : Option Nat :=
  let digits := if arg.head? = some '+' then arg.tail else arg
  if digits ≠ [] ∧ digits.all Char.isDigit ∧ Nat.ofDigitChars 10 digits 0 < Nat.pow 2 64 then
    some (Nat.ofDigitChars 10 digits 0)
  else none

/-- The arguments of a run, as far as they have been read. -/
structure RunArgs where
  inputs : List UInt8 := []
  limit : Option Nat := none
  operands : List String := []
  deriving DecidableEq, Repr

def RunArgs.addInputs (value : Text) (a : RunArgs) : Except ArgsStop RunArgs :=
  match parseInputBits value with
  | .ok bits => .ok { a with inputs := a.inputs ++ [bits] }
  | .error _ => .error .misuse

/-- The limit can be set once. -/
def RunArgs.setLimit (value : Text) (a : RunArgs) : Except ArgsStop RunArgs :=
  match a.limit, parseStepLimit? value with
  | none, some limit => .ok { a with limit := some limit }
  | _, _ => .error .misuse

def RunArgs.grammar : ArgGrammar RunArgs where
  short letter := if letter = 'h' then some stopAtHelp else none
  long name :=
    if name = "inputs" then some (.valued RunArgs.addInputs)
    else if name = "max-steps" then some (.valued RunArgs.setLimit)
    else if name = "help" then some (.flag stopAtHelp)
    else none
  operand arg a := (takeOperand 1 arg a.operands).map fun operands => { a with operands }

/-- The arguments of a disassembly are operands only. -/
def disassemblyGrammar : ArgGrammar (List String) where
  short letter := if letter = 'h' then some stopAtHelp else none
  long name := if name = "help" then some (.flag stopAtHelp) else none
  operand := takeOperand 1

/-- What the emulator takes in place of a command. -/
def emulatorGrammar : ArgGrammar Unit where
  short letter :=
    if letter = 'h' then some stopAtHelp else if letter = 'V' then some stopAtVersion else none
  long name :=
    if name = "help" then some (.flag stopAtHelp)
    else if name = "version" then some (.flag stopAtVersion)
    else none
  operand _ _ := .error .misuse

/-- The emulator runs a tape or disassembles one. -/
inductive EmulatorCommand where
  | run (tape : String) (inputs : List UInt8) (limit : Nat)
  | disassemble (tape : String)
  deriving DecidableEq, Repr

def EmulatorCommand.parse : List String → Except ArgsStop EmulatorCommand
  | "run" :: args => match RunArgs.grammar.scan args {} with
    | .error stop => .error stop
    | .ok ⟨inputs, limit, [tape]⟩ => .ok (.run tape inputs (limit.getD defaultStepLimit))
    | .ok _ => .error .misuse
  | "disassemble" :: args => match disassemblyGrammar.scan args [] with
    | .error stop => .error stop
    | .ok [tape] => .ok (.disassemble tape)
    | .ok _ => .error .misuse
  | "help" :: args =>
    if args ∈ [[], ["run"], ["disassemble"], ["help"]] then .error .help else .error .misuse
  | args => (emulatorGrammar.scan args ()).bind fun _ => .error .misuse

def versionText : String := "ue1-cli 0.1.0\n"

variable {m : Type → Type} [Monad m] [Host m]

/-- Help and the version are results, and a misuse is told with what would have been right. -/
def stopArgs (usage : String) : ArgsStop → m ExitStatus
  | .help => do
    Host.putOut ("usage: " ++ usage ++ "\n")
    pure .success
  | .version => do
    Host.putOut versionText
    pure .success
  | .misuse => do
    Host.putErr ("usage: " ++ usage ++ "\n")
    pure .usage

def assembler (args : List String) : m ExitStatus :=
  match AssemblerCommand.parse args with
  | .error stop => stopArgs "[--listing] INPUT OUTPUT" stop
  | .ok command => assembleFile command.options command.input command.output

def emulator (args : List String) : m ExitStatus :=
  match EmulatorCommand.parse args with
  | .error stop => stopArgs "run [--inputs BITS]... [--max-steps N] TAPE | disassemble TAPE" stop
  | .ok (.run tape inputs limit) => runTape tape inputs limit
  | .ok (.disassemble tape) => disassembleTape tape

end OneBit
