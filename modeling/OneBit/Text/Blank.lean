namespace OneBit

/-- Source text and rendered text, character by character. -/
abbrev Text := List Char

/-- The code points with the Unicode property `White_Space`, as closed ranges in increasing order. -/
def blankRanges : List (Nat × Nat) :=
  [(0x0009, 0x000D), (0x0020, 0x0020), (0x0085, 0x0085), (0x00A0, 0x00A0), (0x1680, 0x1680),
    (0x2000, 0x200A), (0x2028, 0x2029), (0x202F, 0x202F), (0x205F, 0x205F), (0x3000, 0x3000)]

/-- A blank separates words and is trimmed at the ends of a line. -/
def isBlank (c : Char) : Bool :=
  blankRanges.any fun range => range.1 ≤ c.toNat && c.toNat ≤ range.2

def Text.trim (t : Text) : Text :=
  ((t.dropWhile isBlank).reverse.dropWhile isBlank).reverse

/-- The words of a text: its longest runs without a blank, from left to right. -/
def Text.words (t : Text) : List Text :=
  (t.splitOnP isBlank).filter (!·.isEmpty)

/-- The property has twenty-five members. -/
example : (blankRanges.map fun range => range.2 - range.1 + 1).sum = 25 := by decide

/-- A blank cuts the words of a text in two groups that do not see each other. -/
theorem Text.words_append_cons (s t : Text) {b : Char} (blank : isBlank b) :
    Text.words (s ++ b :: t) = Text.words s ++ Text.words t := by
  simp only [Text.words, List.splitOnP_append_cons _ _ blank, List.filter_append]

@[simp]
theorem Text.words_nil : Text.words [] = [] := by decide

/-- A run without a blank is one word. -/
theorem Text.words_of_solid {w : Text} (solid : ∀ c ∈ w, isBlank c = false) (filled : w ≠ []) :
    Text.words w = [w] := by
  simp [Text.words, List.splitOnP_eq_singleton solid, filled]

end OneBit
