import OneBit.Text.Blank
import OneBit.Text.Lines
import OneBit.Text.UpperCase
import OneBit.Text.Numeral
import OneBit.DecodeError
import OneBit.Opcode
import OneBit.Operand
import OneBit.Instruction
import OneBit.Program
import OneBit.Statement
import OneBit.SourceLine
import OneBit.Usage
import OneBit.Listing
import OneBit.Assembly
import OneBit.Machine
import OneBit.Tape
import OneBit.Emulator
import OneBit.InputBits
import OneBit.Terminal
import OneBit.SystemError
import OneBit.Pathname
import OneBit.FileTree
import OneBit.Host
import OneBit.Commands
import OneBit.CommandLine
import OneBit.Workspace
import OneBit.Proofs.Tokens
import OneBit.Proofs.Trimming
import OneBit.Proofs.LineGrammar
import OneBit.Proofs.SessionVerdicts
import OneBit.Proofs.SourceRoundTrip
import OneBit.Proofs.TapeReach
import OneBit.Proofs.StepBudget
import OneBit.Proofs.MachineStep
import OneBit.Proofs.TapeHistory
import OneBit.Proofs.RunStates
import OneBit.Proofs.StoredBits
import OneBit.Proofs.InputRequests
import OneBit.Proofs.HiddenInputs
import OneBit.Proofs.InputSplit
import OneBit.Proofs.TypedInputs
import OneBit.Proofs.HostLaws
import OneBit.Proofs.OutputReplacement
import OneBit.Proofs.FilePlaces
import OneBit.Proofs.WorkspaceLaws
import OneBit.Proofs.SourceErrors
import OneBit.Proofs.AssembleCommand
import OneBit.Proofs.WholeLines
import OneBit.Proofs.LineChanges
import OneBit.Proofs.JoinedSources
import OneBit.Proofs.SourceStatements
import OneBit.Proofs.SpellingKeys
import OneBit.Proofs.SourceLayout
import OneBit.Proofs.LetterCase
import OneBit.Proofs.NameSpellings
import OneBit.Proofs.Lockstep
import OneBit.Proofs.RepeatedStates
import OneBit.Proofs.OnePass
import OneBit.Proofs.InterchangeableTapes
import OneBit.Proofs.RippledWords
import OneBit.Proofs.NumeralReading
import OneBit.Proofs.ListingReading
import OneBit.Proofs.RecordedSource
import OneBit.Proofs.InputNumerals
import OneBit.Proofs.TerminalRequests
import OneBit.Proofs.UsageReport
