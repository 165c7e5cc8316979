import OneBit.Proofs.LineGrammar
import OneBit.Proofs.NumeralReading
import OneBit.Proofs.SessionVerdicts
import OneBit.Proofs.WholeLines

namespace OneBit

theorem Text.lines_feedless (t : Text) : ∀ line ∈ t.lines, '\n' ∉ line := by
  induction t using Text.line_induction with
  | last line clean =>
    by_cases filled : line = []
    · rw [filled, Text.lines_nil]
      exact fun _ member => absurd member List.not_mem_nil
    · rw [Text.lines_line clean filled]
      exact List.forall_mem_singleton.mpr clean
  | feed line rest clean ih =>
    have ended : '\n' ∉ line.dropReturn := by
      rcases line.dropReturn_cases with same | more
      · rwa [same]
      · rw [more] at clean
        exact fun inside => clean (List.mem_append_left _ inside)
    rw [Text.lines_feed clean]
    exact List.forall_mem_cons.mpr ⟨ended, ih⟩

theorem sourceLines_feedless {source : Text} {line : SourceLine} (listed : line ∈ sourceLines source) :
    '\n' ∉ line.raw := by
  obtain ⟨⟨raw, number⟩, numbered, rfl⟩ := List.mem_map.mp listed
  exact Text.lines_feedless source raw (List.fst_mem_of_mem_zipIdx numbered)

theorem Tokens.isToken {t : Text} {words : List Text} (tokens : Tokens t words) : ∀ word ∈ words, word.IsToken := by
  induction tokens with
  | blank gap => exact fun word member => absurd member List.not_mem_nil
  | comment gap => exact fun word member => absurd member List.not_mem_nil
  | token gap token bounds _ ih => exact List.forall_mem_cons.mpr ⟨token, ih⟩

/-- What an error says of the line that it is about. -/
structure SourceError.Blames (e : SourceError) (line : SourceLine) : Prop where
  number : e.line = line.number
  text : e.text = line.text
  token : e.token.IsToken

theorem SourceLine.blames_of_reject {line : SourceLine} {e : SourceError} (refused : line.verdict = .reject e) :
    e.Blames line := by
  obtain ⟨v, grammar⟩ := LineGrammar.exists_verdict line
  rw [grammar.verdict_eq] at refused
  subst refused
  cases grammar with
  | unknownOpcode tokens unnamed trims =>
    obtain ⟨rest, tokens, -⟩ := tokens
    exact ⟨rfl, (Text.trimsTo_iff.mp trims).symm, tokens.isToken _ List.mem_cons_self⟩
  | unknownOperand tokens named unnamed trims =>
    obtain ⟨rest, tokens, second, -⟩ := tokens
    exact ⟨rfl, (Text.trimsTo_iff.mp trims).symm,
      tokens.isToken _ (List.mem_cons_of_mem _ (List.mem_of_getElem? second))⟩
  | unexpectedToken tokens named operandNamed trims =>
    obtain ⟨rest, tokens, -, third⟩ := tokens
    exact ⟨rfl, (Text.trimsTo_iff.mp trims).symm,
      tokens.isToken _ (List.mem_cons_of_mem _ (List.mem_of_getElem? third))⟩

theorem SourceError.message_feedless {e : SourceError} {line : SourceLine} (blames : e.Blames line)
    (feedless : '\n' ∉ line.raw) : '\n' ∉ e.message.toList := by
  have text : '\n' ∉ e.text := by
    rw [blames.text]
    exact fun inside => feedless (Text.mem_of_mem_trim inside)
  have token : '\n' ∉ e.token := blames.token.feedless
  have description : '\n' ∉ e.fault.description.toList := by
    cases e.fault with
    | _ => decide
  unfold SourceError.message
  simp only [String.toList_append, String.toList_ofList, List.mem_append, not_or]
  exact ⟨⟨⟨⟨⟨⟨⟨⟨by decide, decimal_feedless _⟩, by decide⟩, description⟩, by decide⟩, token⟩, by decide⟩, text⟩, by decide⟩

theorem mem_errorsOf {lines : List SourceLine} {e : SourceError} :
    e ∈ errorsOf lines ↔ ∃ line ∈ lines, line.verdict = .reject e := by
  rw [errorsOf, List.mem_filterMap]
  constructor
  · rintro ⟨line, member, found⟩
    refine ⟨line, member, ?_⟩
    cases verdict : line.verdict with
    | skip => simp only [verdict, Verdict.error?, reduceCtorEq] at found
    | emit i => simp only [verdict, Verdict.error?, reduceCtorEq] at found
    | reject e' => simpa only [verdict, Verdict.error?, Option.some.injEq, Verdict.reject.injEq] using found
  · rintro ⟨line, member, verdict⟩
    exact ⟨line, member, by rw [verdict, Verdict.error?]⟩

theorem errorsOf_lines_sublist (lines : List SourceLine) :
    ((errorsOf lines).map (·.line)).Sublist (lines.map (·.number)) := by
  induction lines with
  | nil => exact .slnil
  | cons line lines ih =>
    rw [← List.singleton_append, errorsOf_append, errorsOf_singleton, List.map_append, List.map_append]
    refine List.Sublist.append ?_ ih
    cases verdict : line.verdict with
    | skip => exact List.nil_sublist _
    | emit i => exact List.nil_sublist _
    | reject e =>
      rw [Verdict.error?, Option.toList_some, List.map_singleton, (SourceLine.blames_of_reject verdict).number]
      exact List.Sublist.refl _

theorem sourceLines_increasing (source : Text) : ((sourceLines source).map (·.number)).Pairwise (· < ·) := by
  have numbers : (sourceLines source).map (·.number) = List.range' 1 source.lines.length := by
    rw [sourceLines, List.map_map, ← List.zipIdx_map_snd 1 source.lines]
    rfl
  rw [numbers]
  exact List.pairwise_lt_range'

theorem assemble_eq (options : AssemblyOptions) (source : Text) : assemble options source =
    if errorsOf (sourceLines source) = [] then
      .ok ⟨instructionsOf (sourceLines source), .ofOpcodes ((instructionsOf (sourceLines source)).map (·.opcode)),
        if options.listing then listingFrom 0 (sourceLines source) else []⟩
    else .error (errorsOf (sourceLines source)) := by
  have holds := Session.holds_feedAll options (sourceLines source)
  rw [assemble, holds.finish, holds.usage]

theorem assembles_iff {options : AssemblyOptions} {source : Text} :
    (∃ a, assemble options source = .ok a) ↔ errorsOf (sourceLines source) = [] := by
  rw [assemble_eq]
  constructor
  · rintro ⟨a, assembled⟩
    split at assembled
    · assumption
    · cases assembled
  · intro good
    exact ⟨_, if_pos good⟩

/-- What an assembly holds of the verdicts on the lines of its source. -/
theorem eq_of_assembled {options : AssemblyOptions} {source : Text} {a : Assembly}
    (assembled : assemble options source = .ok a) : a =
      ⟨instructionsOf (sourceLines source), .ofOpcodes ((instructionsOf (sourceLines source)).map (·.opcode)),
        if options.listing then listingFrom 0 (sourceLines source) else []⟩ := by
  have good := assembles_iff.mp ⟨a, assembled⟩
  rw [assemble_eq, if_pos good] at assembled
  exact (Except.ok.inj assembled).symm

/-- A source that does not assemble has errors, they are in the order of their lines, and the message of each takes
one line. -/
theorem errors_of_assemble {options : AssemblyOptions} {source : Text} {errors : List SourceError}
    (refused : assemble options source = .error errors) :
    errors ≠ [] ∧ (errors.map (·.line)).Pairwise (· < ·) ∧ ∀ e ∈ errors, '\n' ∉ e.message.toList := by
  rw [assemble_eq] at refused
  split at refused
  · cases refused
  · rename_i bad
    cases refused
    refine ⟨bad, (sourceLines_increasing source).sublist (errorsOf_lines_sublist _), ?_⟩
    intro e member
    obtain ⟨line, listed, verdict⟩ := mem_errorsOf.mp member
    exact SourceError.message_feedless (SourceLine.blames_of_reject verdict) (sourceLines_feedless listed)

/-- There is a report exactly on a program that is not empty. -/
theorem report_of_assemble {options : AssemblyOptions} {source : Text} {a : Assembly}
    (assembled : assemble options source = .ok a) : a.usage.report? = none ↔ a.program = [] := by
  rw [assemble_eq] at assembled
  split at assembled
  · cases assembled
    rw [Usage.report?, Usage.total_ofOpcodes, List.length_map, ← List.length_eq_zero_iff]
    split
    · rename_i empty
      exact iff_of_true rfl empty
    · rename_i filled
      exact iff_of_false (fun other => nomatch other) filled
  · cases assembled

end OneBit
