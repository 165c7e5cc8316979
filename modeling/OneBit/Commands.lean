import OneBit.Assembly
import OneBit.Emulator
import OneBit.Host
import OneBit.Terminal

namespace OneBit

inductive ExitStatus where
  | success
  | failure
  | usage
  | runFailure
  deriving DecidableEq, Repr

def ExitStatus.code : ExitStatus → UInt8
  | .success => 0
  | .failure => 1
  | .usage => 2
  | .runFailure => 3

variable {m : Type → Type} [Monad m] [Host m]

def cannotRead (path : String) (error : SystemError) : String :=
  "error: cannot read '" ++ path ++ "': " ++ error.message ++ "\n"

def cannotWrite (path : String) (error : SystemError) : String :=
  "error: cannot write '" ++ path ++ "': " ++ error.message ++ "\n"

/-- One line for every error and a last one with their number. -/
def refusal (errors : List SourceError) : String :=
  String.join (errors.map fun error => "error: " ++ error.message ++ "\n") ++
    String.ofList (decimal errors.length) ++ " error(s); no output written\n"

/-- The listing, line by line, and the report on the opcodes if there is one. -/
def Assembly.printed (a : Assembly) : Text :=
  (a.listing.flatMap fun line => line.render ++ ['\n']) ++ a.usage.report?.getD []

/-- Assembles a text file to a tape of bytes. The output is written only if every line assembled, and
nothing is printed before it is in place. -/
def assembleFile (options : AssemblyOptions) (input output : String) : m ExitStatus := do
  match ← (Host.readFile input).run with
  | .error error => do
    Host.putErr (cannotRead input error)
    pure .failure
  | .ok bytes => match decodeText? bytes with
    | none => do
      Host.putErr (cannotRead input .notText)
      pure .failure
    | some source => match assemble options source with
      | .error errors => do
        Host.putErr (refusal errors)
        pure .failure
      | .ok assembly => match ← (Host.replaceFile output assembly.program.encode).run with
        | .error error => do
          Host.putErr (cannotWrite output error)
          pure .failure
        | .ok () => do
          Host.putOut (String.ofList assembly.printed)
          Host.putErr ("assembled " ++ String.ofList (decimal assembly.program.length) ++
            " instructions -> " ++ output ++ "\n")
          pure .success

/-- Runs a tape and prints the word on its outputs. Without inputs on the command line, each request
asks the user. -/
def runTape (tape : String) (inputs : List UInt8) (limit : Nat) : m ExitStatus := do
  match ← (Host.readFile tape).run with
  | .error error => do
    Host.putErr (cannotRead tape error)
    pure .failure
  | .ok bytes => do
    let program := Program.decode bytes
    let result ←
      if inputs.isEmpty then Prod.fst <$> Emulator.execute program limit Host.nextInputs {}
      else pure (run program inputs limit)
    match result with
    | .error error => do
      Host.putErr ("runtime error: " ++ error.message ++ "\n")
      pure .runFailure
    | .ok outcome => do
      if outcome.stop = .inputsExhausted then
        Host.putErr "stopped: no more inputs\n"
      Host.putOut ("Result  : " ++ String.ofList outcome.machine.render ++ "\n")
      pure .success

def disassembleTape (tape : String) : m ExitStatus := do
  match ← (Host.readFile tape).run with
  | .error error => do
    Host.putErr (cannotRead tape error)
    pure .failure
  | .ok bytes => do
    Host.putOut (String.ofList (Program.disassemble (Program.decode bytes)))
    pure .success

end OneBit
