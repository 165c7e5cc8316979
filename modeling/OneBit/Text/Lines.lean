import OneBit.Text.Blank

namespace OneBit

/-- A carriage return directly before the line feed belongs to the line's end. -/
def Text.dropReturn (line : Text) : Text :=
  if line.getLast? = some '\r' then line.dropLast else line

/-- The lines of a text without their ends. What follows the last line feed is a line if it is not
empty, and keeps a carriage return at its end, because no line feed follows. -/
def Text.lines (t : Text) : List Text :=
  let pieces := t.splitOn '\n'
  pieces.dropLast.map Text.dropReturn ++ pieces.getLast?.toList.filter (!·.isEmpty)

@[simp]
theorem Text.lines_nil : Text.lines [] = [] := by decide

/-- A line feed closes the lines before it, so the lines after it do not depend on them. -/
theorem Text.lines_append_cons (s t : Text) :
    Text.lines (s ++ '\n' :: t) = (s.splitOn '\n').map Text.dropReturn ++ Text.lines t := by
  have cut : (s ++ '\n' :: t).splitOn '\n' = s.splitOn '\n' ++ t.splitOn '\n' := by
    simp only [List.splitOn_append_cons_self]
  have filled : t.splitOn '\n' ≠ [] := List.splitOn_ne_nil _ _
  simp only [Text.lines, cut, List.dropLast_append_of_ne_nil filled, List.map_append,
    List.getLast?_append, List.getLast?_eq_some_getLast filled, Option.some_or, List.append_assoc]

/-- A line that holds no line feed and ends in no carriage return is read as it was written. -/
theorem Text.lines_append_line {line : Text} (feeds : '\n' ∉ line) (returns : line.getLast? ≠ some '\r')
    (t : Text) : Text.lines (line ++ '\n' :: t) = line :: Text.lines t := by
  rw [Text.lines_append_cons, List.splitOn_eq_singleton feeds, List.map_singleton, Text.dropReturn,
    if_neg returns, List.singleton_append]

end OneBit
