import OneBit.Proofs.OutputReplacement
import OneBit.Proofs.SourceErrors
import OneBit.Proofs.WorkspaceLaws

namespace OneBit

variable {σ : Type} [Host (StateM σ)]

/-- The file at a path is read as a text, and that leaves the host in the state `read`. -/
def Host.ReadsText (path : String) (w : σ) (source : Text) (read : σ) : Prop :=
  ∃ bytes, call (readFile path) w = (.ok bytes, read) ∧ decodeText? bytes = some source

theorem Host.ReadsText.unique {path : String} {w read read' : σ} {source source' : Text}
    (one : ReadsText path w source read) (two : ReadsText path w source' read') : source = source' ∧ read = read' := by
  obtain ⟨bytes, reading, decoded⟩ := one
  obtain ⟨bytes', reading', decoded'⟩ := two
  cases reading.symm.trans reading'
  cases decoded.symm.trans decoded'
  exact ⟨rfl, rfl⟩

/-- The ways in which the command ends. -/
inductive AssembleEnd (options : AssemblyOptions) (input output : String) (w : σ) : ExitStatus → σ → Prop
  | unread {read after error} : Host.call (Host.readFile input) w = (.error error, read) →
      Host.perform (Host.putErr (cannotRead input error)) read = ((), after) →
      AssembleEnd options input output w .failure after
  | undecoded {bytes read after} : Host.call (Host.readFile input) w = (.ok bytes, read) →
      decodeText? bytes = none → Host.perform (Host.putErr (cannotRead input .notText)) read = ((), after) →
      AssembleEnd options input output w .failure after
  | refused {source errors read after} : Host.ReadsText input w source read →
      assemble options source = .error errors → Host.perform (Host.putErr (refusal errors)) read = ((), after) →
      AssembleEnd options input output w .failure after
  | unwritten {source a read left after error} : Host.ReadsText input w source read →
      assemble options source = .ok a → ReplaceEnd output a.program.encode read (.error error) left →
      Host.perform (Host.putErr (cannotWrite output error)) left = ((), after) →
      AssembleEnd options input output w .failure after
  | produced {source a read filed printed after summary} : Host.ReadsText input w source read →
      assemble options source = .ok a → ReplaceEnd output a.program.encode read (.ok ()) filed →
      Host.perform (Host.putOut (String.ofList a.printed)) filed = ((), printed) →
      Host.perform (Host.putErr summary) printed = ((), after) →
      AssembleEnd options input output w .success after

theorem assembleFile_ends {options : AssemblyOptions} {input output : String} {w after : σ} {status : ExitStatus}
    (run : Host.perform (assembleFile options input output) w = (status, after)) :
    AssembleEnd options input output w status after := by
  unfold assembleFile at run
  obtain ⟨result, read, reading, run⟩ := Host.perform_bind run
  rcases result with error | bytes
  · obtain ⟨⟨⟩, told, telling, run⟩ := Host.perform_bind run
    cases run
    exact .unread reading telling
  dsimp only at run
  cases decoded : decodeText? bytes with
  | none =>
    rw [decoded] at run
    obtain ⟨⟨⟩, told, telling, run⟩ := Host.perform_bind run
    cases run
    exact .undecoded reading decoded telling
  | some source =>
    have reads : Host.ReadsText input w source read := ⟨bytes, reading, decoded⟩
    rw [decoded] at run
    dsimp only at run
    cases assembled : assemble options source with
    | error errors =>
      rw [assembled] at run
      obtain ⟨⟨⟩, told, telling, run⟩ := Host.perform_bind run
      cases run
      exact .refused reads assembled telling
    | ok a =>
      rw [assembled] at run
      obtain ⟨result, replaced, replacing, run⟩ := Host.perform_bind run
      have ends := Host.replaceFile_ends replacing
      rcases result with error | ⟨⟩
      · obtain ⟨⟨⟩, told, telling, run⟩ := Host.perform_bind run
        cases run
        exact .unwritten reads assembled ends telling
      · obtain ⟨⟨⟩, printed, printing, run⟩ := Host.perform_bind run
        obtain ⟨⟨⟩, told, telling, run⟩ := Host.perform_bind run
        cases run
        exact .produced reads assembled ends printing telling

/-- Once the source is read, its errors or else the output decide how the command ends. -/
theorem AssembleEnd.of_reads {options : AssemblyOptions} {input output : String} {w read after : σ} {source : Text}
    {status : ExitStatus} (ends : AssembleEnd options input output w status after)
    (reads : Host.ReadsText input w source read) :
    (∃ errors, assemble options source = .error errors ∧ status = .failure ∧
      Host.perform (Host.putErr (refusal errors)) read = ((), after)) ∨
    ∃ a result left, assemble options source = .ok a ∧ ReplaceEnd output a.program.encode read result left ∧
      (status = .success ↔ result = .ok ()) := by
  cases ends with
  | unread reading =>
    obtain ⟨bytes, reading', -⟩ := reads
    cases reading.symm.trans reading'
  | undecoded reading binary =>
    obtain ⟨bytes, reading', decoded⟩ := reads
    cases reading.symm.trans reading'
    cases binary.symm.trans decoded
  | refused reads' bad telling =>
    obtain ⟨rfl, rfl⟩ := reads.unique reads'
    exact Or.inl ⟨_, bad, rfl, telling⟩
  | unwritten reads' good replacing =>
    obtain ⟨rfl, rfl⟩ := reads.unique reads'
    exact Or.inr ⟨_, _, _, good, replacing, by simp⟩
  | produced reads' good replacing =>
    obtain ⟨rfl, rfl⟩ := reads.unique reads'
    exact Or.inr ⟨_, _, _, good, replacing, by simp⟩

section Files

variable (view : HostView σ)

/-- The output holds the program and all other entries are as before. The listing and the report are printed, with
a report on every program but the empty one. -/
structure HostView.Produced (w after : σ) (output : String) (a : Assembly) : Prop where
  filed : ∃ place, view.target? w output = some place ∧
    view.entry? after = Function.update (view.entry? w) place (some (.file a.program.encode))
  printed : ∃ report, (if a.program = [] then report = [] else a.usage.report? = some report) ∧
    view.out after =
      view.out w ++ String.ofList ((a.listing.flatMap fun line => line.render ++ ['\n']) ++ report)

/-- After reading nothing was done but telling the errors, in the order of their lines and in one line each, and
their number after them. -/
structure HostView.Refused (w read after : σ) (errors : List SourceError) : Prop where
  untried : Host.perform (Host.putErr (refusal errors)) read = ((), after)
  present : errors ≠ []
  ordered : (errors.map (·.line)).Pairwise (· < ·)
  feedless : ∀ e ∈ errors, '\n' ∉ e.message.toList
  shown : view.err after = view.err w ++
    (String.join (errors.map fun error => "error: " ++ error.message ++ "\n") ++
      String.ofList (decimal errors.length) ++ " error(s); no output written\n")

variable {view} {options : AssemblyOptions} {input output : String} {w after : σ}

theorem Host.ReadsText.became {source : Text} {read : σ} (laws : view.Lawful) (reads : Host.ReadsText input w source read) :
    view.Became w (view.entry? w) read := by
  obtain ⟨bytes, reading, -⟩ := reads
  exact laws.reading reading

/-- What is told changes no file and prints nothing. -/
theorem HostView.Became.told {s : σ} {text : String} (laws : view.Lawful) (before : view.Became w (view.entry? w) s)
    (telling : Host.perform (Host.putErr text) s = ((), after)) :
    view.entry? after = view.entry? w ∧ view.out after = view.out w := by
  obtain ⟨entries, out, -⟩ := laws.told telling
  exact ⟨entries.trans before.entries, out.trans before.out⟩

theorem AssembleEnd.unchanged (laws : view.Lawful) (ends : AssembleEnd options input output w .failure after) :
    view.entry? after = view.entry? w ∧ view.out after = view.out w := by
  cases ends with
  | unread reading telling => exact (laws.reading reading).told laws telling
  | undecoded reading _ telling => exact (laws.reading reading).told laws telling
  | refused reads _ telling => exact (reads.became laws).told laws telling
  | unwritten reads _ replacing telling =>
    exact ((reads.became laws).kept (replacing.restored laws)).told laws telling

theorem AssembleEnd.produced_of_success (laws : view.Lawful) (ends : AssembleEnd options input output w .success after) :
    ∃ source a read, Host.ReadsText input w source read ∧ assemble options source = .ok a ∧
      view.Produced w after output a := by
  cases ends with
  | @produced source a read filed printed _ summary reads good replacing printing telling =>
    refine ⟨source, a, read, reads, good, ?_⟩
    have unread := reads.became laws
    obtain ⟨silent, place, target, moved⟩ := replacing.replaced laws
    obtain ⟨entries, out, -⟩ := laws.printed printing
    obtain ⟨entries', out', -⟩ := laws.told telling
    refine ⟨⟨place, unread.targets ▸ target, ?_⟩, a.usage.report?.getD [], ?_, ?_⟩
    · rw [entries', entries, moved, unread.entries]
    · have reported := report_of_assemble good
      split
      · rename_i empty
        rw [reported.mpr empty, Option.getD_none]
      · rename_i filled
        cases report : a.usage.report? with
        | none => exact absurd (reported.mp report) filled
        | some lines => rw [Option.getD_some]
    · rw [out', out, silent.out, unread.out]
      rfl

/-- On any host that keeps the laws the command replaces the output and prints the listing, or it changes no file and
prints nothing. A source with errors is refused before anything is written, and with one that assembles the command
succeeds exactly if the output is replaced. -/
theorem assembleFile_all_or_nothing (laws : view.Lawful) (options : AssemblyOptions) (input output : String) (w : σ) :
    ∃ status after, Host.perform (assembleFile options input output) w = (status, after) ∧
      (status = .success ∧ (∃ source a read, Host.ReadsText input w source read ∧ assemble options source = .ok a ∧
          view.Produced w after output a) ∨
        status = .failure ∧ view.entry? after = view.entry? w ∧ view.out after = view.out w) ∧
      (∀ source errors read, Host.ReadsText input w source read → assemble options source = .error errors →
        status = .failure ∧ view.Refused w read after errors) ∧
      ∀ source a read, Host.ReadsText input w source read → assemble options source = .ok a →
        ∃ result left, ReplaceEnd output a.program.encode read result left ∧ (status = .success ↔ result = .ok ()) := by
  rcases run : Host.perform (assembleFile options input output) w with ⟨status, after⟩
  have ends := assembleFile_ends run
  refine ⟨status, after, rfl, ?_, ?_, ?_⟩
  · cases status with
    | success => exact Or.inl ⟨rfl, ends.produced_of_success laws⟩
    | failure => exact Or.inr ⟨rfl, ends.unchanged laws⟩
    | usage => cases ends
    | runFailure => cases ends
  · intro source errors read reads bad
    rcases ends.of_reads reads with ⟨errors', bad', failed, telling⟩ | ⟨a, _, _, good, -⟩
    · cases bad.symm.trans bad'
      obtain ⟨present, ordered, feedless⟩ := errors_of_assemble bad
      obtain ⟨-, -, shown⟩ := laws.told telling
      rw [(reads.became laws).err] at shown
      exact ⟨failed, telling, present, ordered, feedless, shown⟩
    · cases bad.symm.trans good
  · intro source a read reads good
    rcases ends.of_reads reads with ⟨errors, bad, -⟩ | ⟨a', result, left, good', replacing, decides⟩
    · cases good.symm.trans bad
    · cases good.symm.trans good'
      exact ⟨result, left, replacing, decides⟩

end Files

/-- A workspace with a source and a file from before, and a stage at which the disk is full. -/
def Workspace.ofSource (source : String) (full : Option Stage) : Workspace where
  tree := [(["in"], .file source.toUTF8.data.toList), (["old"], .file [0xAA])]
  fault stage := if full = some stage then some (.other "No space left on device (os error 28)") else none

theorem Workspace.ofSource_reads (source : String)
    (decoded : decodeText? source.toUTF8.data.toList = some source.toList) :
    Host.ReadsText "in" (Workspace.ofSource source none) source.toList (.ofSource source none) :=
  ⟨source.toUTF8.data.toList, rfl, decoded⟩

/-- A source with an unknown opcode is refused, a good one can give way to its own program, and on a full disk the
output from before is kept. -/
theorem assembleFile_refused_replaced_kept :
    (∃ after, Host.perform (assembleFile {} "in" "old") (Workspace.ofSource "FOO\n" none) = (.failure, after) ∧
      after.terminal.err = "error: line 1: unknown opcode 'FOO' in \"FOO\"\n1 error(s); no output written\n") ∧
    (∃ after, Host.perform (assembleFile {} "in" "in") (Workspace.ofSource "LD SR1\n" none) = (.success, after) ∧
      after.tree.entry? =
        Function.update (Workspace.ofSource "LD SR1\n" none).tree.entry? ["in"] (some (.file [0x11]))) ∧
    ∃ after, Host.perform (assembleFile {} "in" "old") (Workspace.ofSource "LD SR1\n" (some .write)) =
        (.failure, after) ∧
      after.tree.entry? = (Workspace.ofSource "LD SR1\n" (some .write)).tree.entry? := by
  refine ⟨?_, ?_, ?_⟩
  · obtain ⟨status, after, run, -, refuses, -⟩ :=
      assembleFile_all_or_nothing Workspace.lawful {} "in" "old" (.ofSource "FOO\n" none)
    have reads := Workspace.ofSource_reads "FOO\n" (by decide +kernel)
    have bad : assemble {} "FOO\n".toList = .error [⟨.unknownOpcode, 1, "FOO".toList, "FOO".toList⟩] := by
      decide +kernel
    obtain ⟨rfl, refused⟩ := refuses _ _ _ reads bad
    refine ⟨after, run, refused.shown.trans ?_⟩
    decide +kernel
  · obtain ⟨status, after, run, ends, -⟩ :=
      assembleFile_all_or_nothing Workspace.lawful {} "in" "in" (.ofSource "LD SR1\n" none)
    have reads := Workspace.ofSource_reads "LD SR1\n" (by decide +kernel)
    have good : assemble {} "LD SR1\n".toList = .ok ⟨[⟨.ld, .scratch 1⟩], .ofOpcodes [.ld], []⟩ := by
      decide +kernel
    have done : (Host.perform (assembleFile {} "in" "in") (Workspace.ofSource "LD SR1\n" none)).1 = .success := by
      decide +kernel
    rw [run] at done
    obtain rfl := done
    rcases ends with ⟨-, source, a, read, reads', good', ⟨place, target, filed⟩, -⟩ | ⟨failed, -⟩
    · obtain ⟨rfl, rfl⟩ := reads.unique reads'
      cases good.symm.trans good'
      have here : Workspace.view.target? (.ofSource "LD SR1\n" none) "in" = some ["in"] := by decide +kernel
      cases here.symm.trans target
      exact ⟨after, run, filed⟩
    · cases failed
  · obtain ⟨status, after, run, ends, -⟩ :=
      assembleFile_all_or_nothing Workspace.lawful {} "in" "old" (.ofSource "LD SR1\n" (some .write))
    have failed : (Host.perform (assembleFile {} "in" "old")
        (Workspace.ofSource "LD SR1\n" (some .write))).1 = .failure := by decide +kernel
    rw [run] at failed
    obtain rfl := failed
    rcases ends with ⟨done, -⟩ | ⟨-, entries, -⟩
    · cases done
    · exact ⟨after, run, entries⟩

end OneBit
