import OneBit.Proofs.SourceStatements

namespace OneBit

/-- A line ends with the text or before its line feed. A carriage return there is in the line or behind its end. -/
inductive Text.LineEnd : Text → Prop
  | text : LineEnd []
  | feed {rest} : LineEnd ('\n' :: rest)
  | returnFeed {rest} : LineEnd ('\r' :: '\n' :: rest)

/-- Edits of one line. Blanks may be replaced by others anywhere, not only between words. -/
inductive LineEdit : Text → Text → Prop
  | comment {line remark : Text} : LineEdit line (line ++ ';' :: remark)
  | indent {gap line : Text} : gap.IsGap → LineEdit line (gap ++ line)
  | trail {line gap : Text} : gap.IsGap → LineEdit line (line ++ gap)
  | respace {before gap other after : Text} : gap.IsGap → gap ≠ [] → other.IsGap → other ≠ [] →
      LineEdit (before ++ gap ++ after) (before ++ other ++ after)

/-- Edits of the layout of a source. A line without tokens is blank or holds only a comment, and stands where a line
begins. -/
inductive LayoutEdit : Text → Text → Prop
  | insertLine {before line after : Text} : before.WholeLines → '\n' ∉ line → Tokens line [] →
      LayoutEdit (before ++ after) (before ++ (line ++ '\n' :: after))
  | inLine {before line line' after : Text} : before.WholeLines → after.LineEnd → '\n' ∉ line → '\n' ∉ line' →
      LineEdit line line' → LayoutEdit (before ++ (line ++ after)) (before ++ (line' ++ after))
  | withReturns {source : Text} : LayoutEdit source source.withReturns
  | finalFeed {source : Text} : LayoutEdit source (source ++ ['\n'])

theorem Text.words_around_gap (s t : Text) {gap : Text} (blank : gap.IsGap) (filled : gap ≠ []) :
    Text.words (s ++ (gap ++ t)) = Text.words s ++ Text.words t := by
  cases gap with
  | nil => exact absurd rfl filled
  | cons b gap =>
    obtain ⟨first, rest⟩ := Text.isGap_cons.mp blank
    rw [List.cons_append, Text.words_append_cons s (gap ++ t) first, Text.words_gap rest]

/-- A semicolon hides all that follows it from the code of a line. -/
theorem Text.code_append (s t : Text) : (s ++ t).takeWhile (· ≠ ';') =
    if ';' ∈ s then s.takeWhile (· ≠ ';') else s ++ t.takeWhile (· ≠ ';') := by
  split
  · rename_i hides
    obtain ⟨before, after, rfl, clean⟩ := List.eq_append_cons_of_mem hides
    have visible : ∀ c ∈ before, decide (c ≠ ';') = true := fun c member =>
      decide_eq_true fun same => clean (same ▸ member)
    rw [List.append_assoc, List.takeWhile_append_of_pos visible, List.takeWhile_append_of_pos visible]
    rfl
  · rename_i clean
    exact List.takeWhile_append_of_pos fun c member => decide_eq_true fun same => clean (same ▸ member)

theorem Text.code_of_comment (line remark : Text) :
    (line ++ ';' :: remark).takeWhile (· ≠ ';') = line.takeWhile (· ≠ ';') := by
  have alone := Text.code_append line []
  rw [List.append_nil] at alone
  exact (Text.code_append line (';' :: remark)).trans alone.symm

/-- Blanks that replace others stand behind the same words or in the same comment. -/
theorem Text.code_words_respace (before after : Text) {gap other : Text} (blank : gap.IsGap) (filled : gap ≠ [])
    (blank' : other.IsGap) (filled' : other ≠ []) :
    Text.words ((before ++ gap ++ after).takeWhile (· ≠ ';')) =
      Text.words ((before ++ other ++ after).takeWhile (· ≠ ';')) := by
  rw [List.append_assoc, List.append_assoc, Text.code_append, Text.code_append before (other ++ after)]
  split
  · rfl
  · rw [List.takeWhile_append_of_pos blank.no_semicolon, List.takeWhile_append_of_pos blank'.no_semicolon,
      Text.words_around_gap before _ blank filled, Text.words_around_gap before _ blank' filled']

theorem LineEdit.ofText?_eq {line line' : Text} (edit : LineEdit line line') :
    Statement.ofText? line = Statement.ofText? line' := by
  have codes : Text.words (line.takeWhile (· ≠ ';')) = Text.words (line'.takeWhile (· ≠ ';')) := by
    cases edit with
    | comment => rw [Text.code_of_comment]
    | @indent gap line blank =>
      have words := Text.code_words_gaps blank Text.isGap_nil line
      rwa [List.append_nil, eq_comm] at words
    | @trail line gap blank => exact (Text.code_words_gaps Text.isGap_nil blank line).symm
    | respace blank filled blank' filled' => exact Text.code_words_respace _ _ blank filled blank' filled'
  rw [Statement.ofText?_eq, Statement.ofText?_eq, codes]

theorem statementsOf_nil : statementsOf [] = [] := rfl

theorem statementsOf_return_feed {line : Text} (clean : '\n' ∉ line) (rest : Text) :
    statementsOf (line ++ '\r' :: '\n' :: rest) = (Statement.ofText? line).toList ++ statementsOf rest := by
  have ended := statementsOf_feed (Text.feedless_return clean) rest
  rwa [List.append_assoc, Statement.ofText?_append_gap line Text.isGap_return] at ended

theorem statementsOf_before_end {line after : Text} (clean : '\n' ∉ line) (ending : after.LineEnd) :
    statementsOf (line ++ after) = (Statement.ofText? line).toList ++ statementsOf after := by
  have empty : '\n' ∉ ([] : Text) := List.not_mem_nil
  cases ending with
  | text => rw [List.append_nil, statementsOf_line clean, statementsOf_nil, List.append_nil]
  | @feed rest =>
    have alone : statementsOf ('\n' :: rest) = statementsOf rest := statementsOf_feed empty rest
    rw [statementsOf_feed clean, alone]
  | @returnFeed rest =>
    have alone : statementsOf ('\r' :: '\n' :: rest) = statementsOf rest := statementsOf_return_feed empty rest
    rw [statementsOf_return_feed clean, alone]

theorem statementsOf_withReturns (source : Text) : statementsOf source.withReturns = statementsOf source := by
  induction source using Text.line_induction with
  | last line clean => rw [Text.withReturns_line clean]
  | feed line rest clean ih =>
    rw [Text.withReturns_feed clean, statementsOf_return_feed clean, ih, statementsOf_feed clean]

theorem statementsOf_finalFeed (source : Text) : statementsOf (source ++ ['\n']) = statementsOf source := by
  induction source using Text.line_induction with
  | last line clean => rw [statementsOf_feed clean, statementsOf_nil, List.append_nil, statementsOf_line clean]
  | feed line rest clean ih =>
    rw [List.append_assoc, List.cons_append, statementsOf_feed clean, ih, statementsOf_feed clean]

theorem LayoutEdit.statementsOf_eq {s t : Text} (edit : LayoutEdit s t) : statementsOf s = statementsOf t := by
  cases edit with
  | @insertLine before line after whole clean idle =>
    have none : Statement.ofText? line = none := by rw [Statement.ofText?_eq, idle.words_eq]
    rw [statementsOf_append whole, statementsOf_append whole, statementsOf_feed clean, none]
    rfl
  | inLine whole ending clean clean' edit =>
    rw [statementsOf_append whole, statementsOf_append whole, statementsOf_before_end clean ending,
      statementsOf_before_end clean' ending, edit.ofText?_eq]
  | withReturns => exact (statementsOf_withReturns s).symm
  | finalFeed => exact (statementsOf_finalFeed s).symm

theorem SourceLine.verdict_trim (number : Nat) (raw : Text) :
    SourceLine.verdict ⟨number, raw.trim⟩ = SourceLine.verdict ⟨number, raw⟩ := by
  rw [SourceLine.verdict, SourceLine.verdict, SourceLine.text, SourceLine.text, Text.trim_trim]

theorem verdicts_of_trimmed {s t : Text} (same : s.lines.map Text.trim = t.lines.map Text.trim) :
    (sourceLines s).map (·.verdict) = (sourceLines t).map (·.verdict) := by
  have trimmed : ∀ source : Text, (sourceLines source).map (·.verdict) =
      ((source.lines.map Text.trim).zipIdx 1).map fun numbered => SourceLine.verdict ⟨numbered.2, numbered.1⟩ := by
    intro source
    rw [sourceLines, List.map_map, List.zipIdx_map, List.map_map]
    exact List.map_congr_left fun numbered _ => (SourceLine.verdict_trim numbered.2 numbered.1).symm
  rw [trimmed s, trimmed t, same]

theorem errorsOf_withReturns (source : Text) :
    errorsOf (sourceLines source.withReturns) = errorsOf (sourceLines source) := by
  have byVerdicts : ∀ lines : List SourceLine, errorsOf lines = (lines.map (·.verdict)).filterMap (·.error?) := by
    intro lines
    rw [List.filterMap_map]
    rfl
  rw [byVerdicts, byVerdicts, verdicts_of_trimmed source.trimmed_lines_withReturns]

/-- Layout does not matter. Any edits of it, done and undone in any order, keep program and usage, or else the faults and
the words at fault. Carriage returns before the line feeds do not even change an error, and nothing at all in a source
that has no other returns. -/
theorem assemble_ignores_layout (options : AssemblyOptions) :
    (∀ s t, Relation.EqvGen LayoutEdit s t →
      withoutPlaces (assemble options s) = withoutPlaces (assemble options t)) ∧
    ∀ source : Text,
      (∀ errors, assemble options source.withReturns = .error errors ↔ assemble options source = .error errors) ∧
      ('\r' ∉ source → assemble options source.withReturns = assemble options source) := by
  refine ⟨?_, fun source => ⟨?_, ?_⟩⟩
  · intro s t edits
    apply withoutPlaces_of_statements
    induction edits with
    | rel s t edit => exact edit.statementsOf_eq
    | refl s => rfl
    | symm s t _ ih => exact ih.symm
    | trans r s t _ _ first second => exact first.trans second
  · intro errors
    rw [assemble_eq, assemble_eq, errorsOf_withReturns]
    split
    · exact iff_of_false (fun other => nomatch other) (fun other => nomatch other)
    · rfl
  · intro plain
    rw [assemble, assemble, sourceLines, sourceLines, Text.lines_withReturns plain]

/-- A refused source before and after some edits: other blanks between words, a remark behind a line, a comment on its
own line, and other ends of lines. -/
theorem refused_after_layout_edits :
    let rest : Text := '\n' :: "foo bar".toList
    let s : Text := "ld".toList ++ [' '] ++ "sr1".toList ++ rest
    let t : Text := "\t; loads".toList ++
      '\n' :: ("ld".toList ++ ['\u2003', '\t'] ++ "sr1".toList ++ ';' :: "first".toList ++ rest)
    Relation.EqvGen LayoutEdit s (t.withReturns ++ ['\n']) ∧
      withoutPlaces (assemble {} (t.withReturns ++ ['\n'])) = .error [(.unknownOpcode, "foo".toList)] := by
  intro rest s t
  let spaced : Text := "ld".toList ++ ['\u2003', '\t'] ++ "sr1".toList
  have blanks : LayoutEdit ([] ++ ("ld".toList ++ [' '] ++ "sr1".toList ++ rest)) ([] ++ (spaced ++ rest)) :=
    .inLine (Or.inl rfl) .feed (by decide) (by decide) (.respace (by decide) (by decide) (by decide) (by decide))
  have remark : LayoutEdit ([] ++ (spaced ++ rest)) ([] ++ (spaced ++ ';' :: "first".toList ++ rest)) :=
    .inLine (Or.inl rfl) .feed (by decide) (by decide) .comment
  have heading : Tokens "\t; loads".toList [] := tokens_iff.mpr (by decide +kernel)
  have headed : LayoutEdit ([] ++ (spaced ++ ';' :: "first".toList ++ rest)) ([] ++ t) :=
    .insertLine (Or.inl rfl) (by decide) heading
  have returns : LayoutEdit t t.withReturns := .withReturns
  have ended : LayoutEdit t.withReturns (t.withReturns ++ ['\n']) := .finalFeed
  have edits : Relation.EqvGen LayoutEdit s (t.withReturns ++ ['\n']) :=
    .trans _ _ _ (.rel _ _ blanks) (.trans _ _ _ (.rel _ _ remark) (.trans _ _ _ (.rel _ _ headed)
      (.trans _ _ _ (.rel _ _ returns) (.rel _ _ ended))))
  refine ⟨edits, ?_⟩
  rw [← (assemble_ignores_layout {}).1 s _ edits]
  decide +kernel

end OneBit
