import OneBit.Proofs.Trimming
import OneBit.Text.Lines

namespace OneBit

/-- Every text is either a line that no line feed ends, or a line with its line feed and a shorter text. -/
@[elab_as_elim]
theorem Text.line_induction {motive : Text → Prop} (last : ∀ line, '\n' ∉ line → motive line)
    (feed : ∀ line rest, '\n' ∉ line → motive rest → motive (line ++ '\n' :: rest)) (t : Text) : motive t := by
  induction size : t.length using Nat.strongRecOn generalizing t with
  | ind n ih =>
    by_cases inside : '\n' ∈ t
    · obtain ⟨line, rest, rfl, clean⟩ := List.eq_append_cons_of_mem inside
      have shorter : rest.length < n := by
        simp only [List.length_append, List.length_cons] at size
        omega
      exact feed line rest clean (ih rest.length shorter rest rfl)
    · exact last t inside

/-- A text of whole lines is empty or ends with a line feed. -/
def Text.WholeLines (t : Text) : Prop := t = [] ∨ t.getLast? = some '\n'

theorem Text.WholeLines.eq_nil_or_feed {t : Text} (whole : t.WholeLines) : t = [] ∨ ∃ body, t = body ++ ['\n'] := by
  rcases whole with empty | feed
  · exact Or.inl empty
  · obtain ⟨body, parts⟩ := List.getLast?_eq_some_iff.mp feed
    exact Or.inr ⟨body, parts⟩

theorem Text.WholeLines.lines_append {s : Text} (whole : s.WholeLines) (t : Text) :
    (s ++ t).lines = s.lines ++ t.lines := by
  obtain rfl | ⟨body, rfl⟩ := whole.eq_nil_or_feed
  · rw [Text.lines_nil, List.nil_append, List.nil_append]
  · have joined := Text.lines_append_cons body t
    have alone := Text.lines_append_cons body []
    rw [Text.lines_nil, List.append_nil] at alone
    rw [List.append_assoc, List.singleton_append, joined, alone]

/-- A text with a carriage return before each of its line feeds. -/
def Text.withReturns (t : Text) : Text := t.flatMap fun c => if c = '\n' then ['\r', '\n'] else [c]

theorem Text.withReturns_cons (c : Char) (t : Text) :
    Text.withReturns (c :: t) = (if c = '\n' then ['\r', '\n'] else [c]) ++ t.withReturns := rfl

theorem Text.withReturns_append (s t : Text) : (s ++ t).withReturns = s.withReturns ++ t.withReturns :=
  List.flatMap_append

theorem Text.withReturns_line {line : Text} (clean : '\n' ∉ line) : line.withReturns = line := by
  induction line with
  | nil => rfl
  | cons c line ih =>
    obtain ⟨first, rest⟩ := List.ne_and_not_mem_of_not_mem_cons clean
    rw [Text.withReturns_cons, if_neg first.symm, ih rest, List.singleton_append]

theorem Text.withReturns_feed {line : Text} (clean : '\n' ∉ line) (rest : Text) :
    (line ++ '\n' :: rest).withReturns = line ++ '\r' :: '\n' :: rest.withReturns := by
  rw [Text.withReturns_append, Text.withReturns_line clean, Text.withReturns_cons, if_pos rfl]
  rfl

theorem Text.lines_line {line : Text} (clean : '\n' ∉ line) (filled : line ≠ []) : line.lines = [line] := by
  have visible : line.isEmpty = false := List.isEmpty_eq_false_iff.mpr filled
  rw [Text.lines, List.splitOn_eq_singleton clean, List.dropLast_singleton, List.map_nil, List.nil_append,
    List.getLast?_singleton, Option.toList_some, List.filter_singleton, visible]
  rfl

theorem Text.lines_feed {line : Text} (clean : '\n' ∉ line) (rest : Text) :
    Text.lines (line ++ '\n' :: rest) = line.dropReturn :: rest.lines := by
  rw [Text.lines_append_cons, List.splitOn_eq_singleton clean, List.map_singleton, List.singleton_append]

theorem Text.splitOn_joined {lines : List Text} (clean : ∀ line ∈ lines, '\n' ∉ line) :
    (lines.flatMap (· ++ ['\n'])).splitOn '\n' = lines ++ [[]] := by
  induction lines with
  | nil => rfl
  | cons line lines ih =>
    obtain ⟨first, rest⟩ := List.forall_mem_cons.mp clean
    rw [List.flatMap_cons, List.append_assoc, List.singleton_append, List.splitOn_append_cons_self,
      List.splitOn_eq_singleton first, ih rest, List.singleton_append, List.cons_append]

/-- Lines without line feeds are read as they were joined, but for the returns at their ends. -/
theorem Text.lines_joined {lines : List Text} (clean : ∀ line ∈ lines, '\n' ∉ line) :
    Text.lines (lines.flatMap (· ++ ['\n'])) = lines.map Text.dropReturn := by
  rw [Text.lines, Text.splitOn_joined clean, List.dropLast_concat, List.getLast?_concat]
  exact List.append_nil _

theorem Text.feedless_return {line : Text} (clean : '\n' ∉ line) : '\n' ∉ line ++ ['\r'] := by
  simp only [List.mem_append, List.mem_singleton, not_or]
  exact ⟨clean, by decide⟩

/-- Of several carriage returns before a line feed one belongs to the end of the line. -/
theorem Text.lines_return_feed {line : Text} (clean : '\n' ∉ line) (rest : Text) :
    Text.lines (line ++ '\r' :: '\n' :: rest) = line :: rest.lines := by
  have ended := Text.lines_feed (Text.feedless_return clean) rest
  rw [List.append_assoc, List.singleton_append] at ended
  rw [ended, Text.dropReturn, List.getLast?_concat, if_pos rfl, List.dropLast_concat]

theorem Text.dropReturn_cases (line : Text) : line.dropReturn = line ∨ line = line.dropReturn ++ ['\r'] := by
  by_cases ended : line.getLast? = some '\r'
  · obtain ⟨body, rfl⟩ := List.getLast?_eq_some_iff.mp ended
    right
    rw [Text.dropReturn, if_pos ended, List.dropLast_concat]
  · left
    rw [Text.dropReturn, if_neg ended]

theorem Text.isGap_return : Text.IsGap ['\r'] := by
  intro c member
  rw [List.mem_singleton.mp member]
  decide

theorem Text.trim_append_gap (t : Text) {gap : Text} (blank : gap.IsGap) : (t ++ gap).trim = t.trim := by
  have trims := Text.trimsTo_trim t
  obtain ⟨before, after, front, back, whole⟩ := trims.parts
  have wider : Text.IsGap (after ++ gap) := fun c member => (List.mem_append.mp member).elim (back c) (blank c)
  refine Text.trimsTo_iff.mp ⟨⟨before, after ++ gap, front, wider, ?_⟩, trims.first, trims.last⟩
  rw [← List.append_assoc, ← whole]

theorem Text.trim_dropReturn (line : Text) : line.dropReturn.trim = line.trim := by
  rcases line.dropReturn_cases with same | more
  · rw [same]
  · have trimmed := Text.trim_append_gap line.dropReturn Text.isGap_return
    rw [← more] at trimmed
    exact trimmed.symm

/-- Returns at the ends of lines change no more of a line than the blanks around it. -/
theorem Text.trimmed_lines_withReturns (t : Text) : t.withReturns.lines.map Text.trim = t.lines.map Text.trim := by
  induction t using Text.line_induction with
  | last line clean => rw [Text.withReturns_line clean]
  | feed line rest clean ih =>
    rw [Text.withReturns_feed clean, Text.lines_return_feed clean, Text.lines_feed clean, List.map_cons, List.map_cons,
      ih, Text.trim_dropReturn]

/-- In a text without returns, those put before the line feeds belong to the ends of the lines. -/
theorem Text.lines_withReturns {t : Text} (plain : '\r' ∉ t) : t.withReturns.lines = t.lines := by
  induction t using Text.line_induction with
  | last line clean => rw [Text.withReturns_line clean]
  | feed line rest clean ih =>
    simp only [List.mem_append, List.mem_cons, not_or] at plain
    obtain ⟨inLine, -, inRest⟩ := plain
    have unended : line.dropReturn = line := by
      rw [Text.dropReturn, if_neg]
      exact fun ended => inLine (List.mem_of_getLast? ended)
    rw [Text.withReturns_feed clean, Text.lines_return_feed clean, Text.lines_feed clean, ih inRest, unended]

end OneBit
