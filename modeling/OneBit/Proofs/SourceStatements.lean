import OneBit.Proofs.SourceErrors
import OneBit.Proofs.WholeLines

namespace OneBit

/-- The statements of a source in the order of its lines. Lines without a statement drop out. -/
def statementsOf (source : Text) : List Statement :=
  (sourceLines source).filterMap fun line => Statement.ofText? line.text

/-- What is wrong with a statement: its first fault and the word at fault. -/
def Statement.fault? (s : Statement) : Option (Fault × Text) :=
  match s.instruction? with
  | .ok _ => none
  | .error fault => some fault

theorem SourceLine.instruction?_verdict (line : SourceLine) :
    line.verdict.instruction? = (Statement.ofText? line.text).bind fun s => s.instruction?.toOption := by
  rw [SourceLine.verdict]
  cases Statement.ofText? line.text with
  | none => rfl
  | some statement =>
    cases judged : statement.instruction? with
    | ok i => simp only [judged, Verdict.instruction?, Option.bind_some, Except.toOption]
    | error fault => simp only [judged, Verdict.instruction?, Option.bind_some, Except.toOption]

theorem SourceLine.error?_verdict (line : SourceLine) :
    line.verdict.error?.map (fun e => (e.fault, e.token)) = (Statement.ofText? line.text).bind (·.fault?) := by
  rw [SourceLine.verdict]
  cases Statement.ofText? line.text with
  | none => rfl
  | some statement =>
    cases judged : statement.instruction? with
    | ok i => simp only [judged, Verdict.error?, Option.bind_some, Statement.fault?, Option.map_none]
    | error fault => simp only [judged, Verdict.error?, Option.bind_some, Statement.fault?, Option.map_some]

theorem instructionsOf_source (source : Text) :
    instructionsOf (sourceLines source) = (statementsOf source).filterMap (·.instruction?.toOption) := by
  rw [instructionsOf, statementsOf, List.filterMap_filterMap]
  congr
  funext line
  exact line.instruction?_verdict

theorem faults_of_source (source : Text) :
    (errorsOf (sourceLines source)).map (fun e => (e.fault, e.token)) = (statementsOf source).filterMap (·.fault?) := by
  rw [errorsOf, statementsOf, List.map_filterMap, List.filterMap_filterMap]
  congr
  funext line
  exact line.error?_verdict

/-- A source assembles exactly if each of its statements is an instruction. -/
theorem errorsOf_source_eq_nil_iff {source : Text} :
    errorsOf (sourceLines source) = [] ↔ ∀ s ∈ statementsOf source, ∃ i, s.instruction? = .ok i := by
  rw [← List.map_eq_nil_iff, faults_of_source, List.filterMap_eq_nil_iff]
  constructor
  · intro faultless s member
    have none := faultless s member
    cases judged : s.instruction? with
    | ok i => exact ⟨i, rfl⟩
    | error fault => simp only [Statement.fault?, judged, reduceCtorEq] at none
  · intro good s member
    obtain ⟨i, judged⟩ := good s member
    simp only [Statement.fault?, judged]

/-- What a result says apart from places in the source: program and usage, or the faults with the words at fault. -/
def withoutPlaces : Except (List SourceError) Assembly → Except (List (Fault × Text)) (Program × Usage)
  | .ok a => .ok (a.program, a.usage)
  | .error errors => .error (errors.map fun e => (e.fault, e.token))

theorem withoutPlaces_of_statements (options : AssemblyOptions) {s t : Text} (same : statementsOf s = statementsOf t) :
    withoutPlaces (assemble options s) = withoutPlaces (assemble options t) := by
  have instructions : instructionsOf (sourceLines s) = instructionsOf (sourceLines t) := by
    rw [instructionsOf_source, instructionsOf_source, same]
  have faults : (errorsOf (sourceLines s)).map (fun e => (e.fault, e.token)) =
      (errorsOf (sourceLines t)).map (fun e => (e.fault, e.token)) := by
    rw [faults_of_source, faults_of_source, same]
  have accepted : errorsOf (sourceLines s) = [] ↔ errorsOf (sourceLines t) = [] := by
    rw [errorsOf_source_eq_nil_iff, errorsOf_source_eq_nil_iff, same]
  rw [assemble_eq, assemble_eq]
  by_cases good : errorsOf (sourceLines s) = []
  · simp only [if_pos good, if_pos (accepted.mp good), withoutPlaces, instructions]
  · simp only [if_neg good, if_neg fun other => good (accepted.mpr other), withoutPlaces, faults]

theorem Statement.ofText?_append_gap (t : Text) {gap : Text} (blank : gap.IsGap) :
    Statement.ofText? (t ++ gap) = Statement.ofText? t := by
  have trimmed := Statement.ofText?_trim (t ++ gap)
  rw [Text.trim_append_gap t blank, Statement.ofText?_trim] at trimmed
  exact trimmed.symm

theorem Statement.ofText?_dropReturn (line : Text) : Statement.ofText? line.dropReturn = Statement.ofText? line := by
  rw [← Statement.ofText?_trim, Text.trim_dropReturn, Statement.ofText?_trim]

theorem statementsOf_eq_filterMap_lines (source : Text) :
    statementsOf source = source.lines.filterMap Statement.ofText? := by
  have raws : (sourceLines source).map (·.raw) = source.lines := by
    rw [sourceLines, List.map_map]
    exact List.zipIdx_map_fst 1 source.lines
  rw [← raws, List.filterMap_map, statementsOf]
  congr
  funext line
  exact Statement.ofText?_trim line.raw

theorem statementsOf_line {line : Text} (clean : '\n' ∉ line) :
    statementsOf line = (Statement.ofText? line).toList := by
  rw [statementsOf_eq_filterMap_lines]
  by_cases filled : line = []
  · rw [filled]
    rfl
  · rw [Text.lines_line clean filled, List.filterMap_eq_flatMap_toList, List.flatMap_singleton]

theorem statementsOf_feed {line : Text} (clean : '\n' ∉ line) (rest : Text) :
    statementsOf (line ++ '\n' :: rest) = (Statement.ofText? line).toList ++ statementsOf rest := by
  rw [statementsOf_eq_filterMap_lines, Text.lines_feed clean, List.filterMap_eq_flatMap_toList, List.flatMap_cons,
    Statement.ofText?_dropReturn, ← List.filterMap_eq_flatMap_toList, ← statementsOf_eq_filterMap_lines]

theorem statementsOf_append {s : Text} (whole : s.WholeLines) (t : Text) :
    statementsOf (s ++ t) = statementsOf s ++ statementsOf t := by
  rw [statementsOf_eq_filterMap_lines, whole.lines_append, List.filterMap_append, statementsOf_eq_filterMap_lines,
    statementsOf_eq_filterMap_lines]

end OneBit
