import OneBit.Proofs.LineChanges
import OneBit.Proofs.SourceErrors
import OneBit.Proofs.WholeLines

namespace OneBit

/-- What is kept of a source line in its entry of a listing. -/
def ListingLine.recorded : ListingLine → Text
  | .emitted _ _ _ text => text
  | .skipped _ raw => raw

/-- The lines of a listing as a source, each ended by a line feed. -/
def Assembly.recorded (a : Assembly) : Text := a.listing.flatMap fun entry => entry.recorded ++ ['\n']

/-- A skipped line is listed as written, so that a return at its end is lost when a line feed follows it. -/
def ListingLine.dropReturn : ListingLine → ListingLine
  | .emitted address byte line text => .emitted address byte line text
  | .skipped line raw => .skipped line raw.dropReturn

/-- What a listing keeps of a line that is not refused. -/
def Text.recorded (raw : Text) : Text :=
  match Statement.ofText? raw.trim with
  | none => raw
  | some _ => raw.trim

/-- The line that is read where the listing of a line was written. -/
def SourceLine.reread (l : SourceLine) : SourceLine := { l with raw := l.raw.recorded.dropReturn }

theorem Text.feedless_recorded {line : Text} (clean : '\n' ∉ line) : '\n' ∉ line.recorded := by
  rw [Text.recorded]
  split
  · exact clean
  · exact fun inside => clean (Text.mem_of_mem_trim inside)

theorem Text.trim_recorded (raw : Text) : raw.recorded.trim = raw.trim := by
  rw [Text.recorded]
  split
  · rfl
  · exact raw.trim_trim

theorem Verdict.mapError_id (v : Verdict) : v.mapError id = v := by
  cases v with
  | skip => rfl
  | emit i => rfl
  | reject e => rfl

theorem SourceLine.text_reread (l : SourceLine) : l.reread.text = l.text := by
  rw [SourceLine.text, SourceLine.reread, Text.trim_dropReturn, Text.trim_recorded, SourceLine.text]

theorem SourceLine.mapError_reread (l : SourceLine) : l.reread.verdict = l.verdict.mapError id :=
  SourceLine.verdict_of_text l.text_reread fun _ _ => rfl

theorem SourceLine.verdict_reread (l : SourceLine) : l.reread.verdict = l.verdict :=
  l.mapError_reread.trans l.verdict.mapError_id

theorem SourceLine.verdict_eq_skip_iff {l : SourceLine} : l.verdict = .skip ↔ Statement.ofText? l.text = none := by
  rw [SourceLine.verdict]
  cases Statement.ofText? l.text with
  | none => exact iff_of_true rfl rfl
  | some statement =>
    dsimp only
    cases statement.instruction? with
    | ok i => exact iff_of_false Verdict.noConfusion (Option.some_ne_none statement)
    | error fault => exact iff_of_false Verdict.noConfusion (Option.some_ne_none statement)

theorem SourceLine.recorded_of_skip {l : SourceLine} (skipped : l.verdict = .skip) : l.raw.recorded = l.raw := by
  have nothing : Statement.ofText? l.raw.trim = none := SourceLine.verdict_eq_skip_iff.mp skipped
  rw [Text.recorded, nothing]

theorem SourceLine.recorded_of_not_skip {l : SourceLine} (kept : l.verdict ≠ .skip) : l.raw.recorded = l.text := by
  obtain ⟨statement, something⟩ := Option.ne_none_iff_exists'.mp fun none => kept (verdict_eq_skip_iff.mpr none)
  rw [SourceLine.text] at something ⊢
  rw [Text.recorded, something]

theorem SourceLine.listed?_reread (l : SourceLine) (address : Nat) :
    l.reread.listed? address = (l.listed? address).map ListingLine.dropReturn := by
  rw [SourceLine.listed?, l.verdict_reread, SourceLine.listed?]
  cases verdict : l.verdict with
  | skip =>
    have raw : l.reread.raw = l.raw.dropReturn := by rw [SourceLine.reread, SourceLine.recorded_of_skip verdict]
    exact congrArg (fun raw => some (ListingLine.skipped l.number raw)) raw
  | emit i => exact congrArg (fun text => some (ListingLine.emitted address i.encode l.number text)) l.text_reread
  | reject e => rfl

theorem SourceLine.recorded_of_listed {l : SourceLine} {address : Nat} {entry : ListingLine}
    (listed : l.listed? address = some entry) : entry.recorded = l.raw.recorded := by
  rw [SourceLine.listed?] at listed
  cases verdict : l.verdict with
  | skip =>
    rw [verdict] at listed
    cases listed
    exact (SourceLine.recorded_of_skip verdict).symm
  | emit i =>
    rw [verdict] at listed
    cases listed
    exact (SourceLine.recorded_of_not_skip (by rw [verdict]; exact Verdict.noConfusion)).symm
  | reject e =>
    rw [verdict] at listed
    cases listed

theorem recorded_listingFrom (address : Nat) {lines : List SourceLine} (good : errorsOf lines = []) :
    (listingFrom address lines).map ListingLine.recorded = lines.map (·.raw.recorded) := by
  induction lines generalizing address with
  | nil => rfl
  | cons l lines ih =>
    obtain ⟨first, rest⟩ := errorsOf_cons_eq_nil good
    obtain ⟨entry, listed⟩ := SourceLine.exists_listed first address
    rw [listingFrom, listed, Option.toList_some, List.singleton_append, List.map_cons, List.map_cons, ih _ rest,
      SourceLine.recorded_of_listed listed]

theorem instructionsOf_reread (lines : List SourceLine) :
    instructionsOf (lines.map SourceLine.reread) = instructionsOf lines :=
  instructionsOf_map_of SourceLine.mapError_reread lines

theorem errorsOf_reread (lines : List SourceLine) : errorsOf (lines.map SourceLine.reread) = errorsOf lines := by
  rw [errorsOf_map_of SourceLine.mapError_reread, List.map_id]

theorem listingFrom_reread (lines : List SourceLine) :
    listingFrom 0 (lines.map SourceLine.reread) = (listingFrom 0 lines).map ListingLine.dropReturn := by
  have listed : ∀ l address, (SourceLine.reread l).listed? (address + 0) = (l.listed? address).map _ :=
    SourceLine.listed?_reread
  exact listingFrom_map_of (fun l => instructionsOf_reread [l]) listed 0 lines

/-- The lines of a listing are read as the lines that were listed, under the same numbers. -/
theorem sourceLines_recorded {source : Text} {a : Assembly} (assembled : assemble { listing := true } source = .ok a) :
    sourceLines a.recorded = (sourceLines source).map SourceLine.reread := by
  have good := assembles_iff.mp ⟨a, assembled⟩
  have listing : a.listing = listingFrom 0 (sourceLines source) := by rw [eq_of_assembled assembled, if_pos rfl]
  have raws : (sourceLines source).map (·.raw.recorded) = source.lines.map Text.recorded := by
    rw [sourceLines, List.map_map, ← List.zipIdx_map_fst 1 source.lines, List.map_map, List.zipIdx_map_fst]
    rfl
  have joined : a.recorded = (source.lines.map Text.recorded).flatMap (· ++ ['\n']) := by
    rw [← raws, ← recorded_listingFrom 0 good, ← listing, List.flatMap_map, Assembly.recorded]
  have clean : ∀ line ∈ source.lines.map Text.recorded, '\n' ∉ line := by
    intro line member
    obtain ⟨raw, inside, rfl⟩ := List.mem_map.mp member
    exact Text.feedless_recorded (source.lines_feedless raw inside)
  rw [sourceLines, joined, Text.lines_joined clean, List.map_map, List.zipIdx_map, List.map_map, sourceLines,
    List.map_map]
  rfl

/-- The text of an error is a line of its own, and refused for the same reason. -/
theorem assemble_error_text {source : Text} {e : SourceError} (member : e ∈ errorsOf (sourceLines source))
    (options : AssemblyOptions) : assemble options e.text = .error [{ e with line := 1 }] := by
  obtain ⟨l, listed, refused⟩ := mem_errorsOf.mp member
  have text : e.text = l.text := (SourceLine.blames_of_reject refused).text
  have clean : '\n' ∉ e.text := by
    rw [text]
    exact fun inside => sourceLines_feedless listed (Text.mem_of_mem_trim inside)
  have filled : e.text ≠ [] := by
    intro empty
    rw [text] at empty
    have skipped : l.verdict = .skip := SourceLine.verdict_eq_skip_iff.mpr (by rw [empty]; rfl)
    rw [skipped] at refused
    cases refused
  have line : sourceLines e.text = [⟨1, e.text⟩] := by
    rw [sourceLines, Text.lines_line clean filled]
    rfl
  have sameText : SourceLine.text ⟨1, e.text⟩ = l.text := by
    rw [SourceLine.text, text]
    exact l.raw.trim_trim
  have first : SourceLine.verdict ⟨1, e.text⟩ = l.verdict.mapError fun e => { e with line := 1 } :=
    SourceLine.verdict_of_text sameText fun _ _ => rfl
  have errors : errorsOf [⟨1, e.text⟩] = [{ e with line := 1 }] := by
    rw [errorsOf_singleton, first, refused]
    rfl
  rw [assemble_eq, line, errors, if_neg (List.cons_ne_nil _ _)]

/-- What a result records of its source is enough to get the result again. The lines of a listing are a source of the same
program, counts and listing, but that skipped lines lose a return at their ends, and the text of an error is refused with
that error and no other. -/
theorem recorded_text_reproduces (source : Text) :
    (∀ a, assemble { listing := true } source = .ok a → ∀ options : AssemblyOptions,
      ∃ b, assemble options a.recorded = .ok b ∧ b.program = a.program ∧ b.usage = a.usage ∧
        b.listing = if options.listing then a.listing.map ListingLine.dropReturn else []) ∧
    ∀ options errors, assemble options source = .error errors →
      ∀ e ∈ errors, ∀ other : AssemblyOptions, assemble other e.text = .error [{ e with line := 1 }] := by
  constructor
  · intro a assembled options
    have good := assembles_iff.mp ⟨a, assembled⟩
    have again : assemble options a.recorded = .ok ⟨instructionsOf (sourceLines source),
        .ofOpcodes ((instructionsOf (sourceLines source)).map (·.opcode)),
        if options.listing then (listingFrom 0 (sourceLines source)).map ListingLine.dropReturn else []⟩ := by
      rw [assemble_eq, sourceLines_recorded assembled, errorsOf_reread, if_pos good, instructionsOf_reread,
        listingFrom_reread]
    obtain rfl := eq_of_assembled assembled
    exact ⟨_, again, rfl, rfl, rfl⟩
  · intro options errors refused e member other
    rw [assemble_eq] at refused
    split at refused
    · cases refused
    · cases refused
      exact assemble_error_text member other

/-- A source with returns inside, behind and instead of its lines, and a refused one. -/
theorem recorded_text_of_each_kind :
    (let source : Text := "\tld\rrr ;x \r\n;c\r\r\nhlt\n\r".toList
      ∃ a b, assemble { listing := true } source = .ok a ∧ a.recorded = "ld\rrr ;x\n;c\r\nhlt\n\r\n".toList ∧
        assemble { listing := true } a.recorded = .ok b ∧ b.program.encode = [0x18, 0xF0] ∧
        b.listing = [.emitted 0 0x18 1 "ld\rrr ;x".toList, .skipped 2 ";c".toList, .emitted 1 0xF0 3 "hlt".toList,
          .skipped 4 []]) ∧
    let error : SourceError := ⟨.unknownOperand, 2, "LD IR0 ; no".toList, "IR0".toList⟩
    assemble {} "one\n LD IR0 ; no\t\r\n".toList = .error [error] ∧
      assemble {} error.text = .error [⟨.unknownOperand, 1, "LD IR0 ; no".toList, "IR0".toList⟩] := by
  constructor
  · have assembled : assemble { listing := true } "\tld\rrr ;x \r\n;c\r\r\nhlt\n\r".toList =
        .ok ⟨[⟨.ld, .channel 0⟩, ⟨.nopf, .scratch 0⟩], .ofOpcodes [.ld, .nopf], [.emitted 0 0x18 1 "ld\rrr ;x".toList,
          .skipped 2 ";c\r".toList, .emitted 1 0xF0 3 "hlt".toList, .skipped 4 "\r".toList]⟩ := by decide +kernel
    obtain ⟨b, again, program, -, listing⟩ :=
      (recorded_text_reproduces _).1 _ assembled { listing := true }
    refine ⟨_, b, assembled, by decide, again, ?_, ?_⟩
    · rw [program]
      decide
    · rw [listing]
      decide
  · have refused : assemble {} "one\n LD IR0 ; no\t\r\n".toList =
        .error [⟨.unknownOperand, 2, "LD IR0 ; no".toList, "IR0".toList⟩] := by decide +kernel
    exact ⟨refused, (recorded_text_reproduces _).2 {} _ refused _ List.mem_cons_self {}⟩

end OneBit
