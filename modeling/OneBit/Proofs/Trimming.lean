import OneBit.Proofs.Tokens

namespace OneBit

/-- A text between gaps that neither begins nor ends with a blank. -/
structure Text.TrimsTo (raw text : Text) : Prop where
  parts : ∃ before after, Text.IsGap before ∧ Text.IsGap after ∧ raw = before ++ text ++ after
  first : ∀ c ∈ text.head?, isBlank c = false
  last : ∀ c ∈ text.getLast?, isBlank c = false

theorem Text.dropWhile_of_head {t : Text} (first : ∀ c ∈ t.head?, isBlank c = false) :
    t.dropWhile isBlank = t := by
  cases t with
  | nil => rfl
  | cons c t =>
    have visible : ¬ isBlank c = true := Bool.not_eq_true _ ▸ first c rfl
    exact List.dropWhile_cons_of_neg visible

theorem Text.head_dropWhile (t : Text) : ∀ c ∈ (t.dropWhile isBlank).head?, isBlank c = false := by
  intro c first
  have stop := List.head?_dropWhile_not isBlank t
  rw [Option.mem_def.mp first] at stop
  simpa only [Bool.not_eq_true'] using stop

theorem Text.trimsTo_trim (t : Text) : t.TrimsTo t.trim := by
  have front : t.takeWhile isBlank ++ t.dropWhile isBlank = t := List.takeWhile_append_dropWhile
  have back : t.trim ++ (t.dropWhile isBlank).rtakeWhile isBlank = t.dropWhile isBlank :=
    List.rdropWhile_append_rtakeWhile
  refine ⟨⟨t.takeWhile isBlank, (t.dropWhile isBlank).rtakeWhile isBlank, ?_, ?_, ?_⟩, ?_, ?_⟩
  · exact fun c member => List.mem_takeWhile_imp member
  · exact fun c member => List.mem_rtakeWhile_imp member
  · rw [List.append_assoc, back, front]
  · intro c first
    have kept : c ∈ (t.dropWhile isBlank).head? := by
      rw [← back, List.head?_append, Option.mem_def.mp first]
      rfl
    exact Text.head_dropWhile t c kept
  · intro c last
    rw [Text.trim, List.getLast?_reverse] at last
    exact Text.head_dropWhile _ c last

/-- What a text can be trimmed to is what `trim` leaves of it. -/
theorem Text.trimsTo_iff {raw text : Text} : raw.TrimsTo text ↔ raw.trim = text := by
  constructor
  · rintro ⟨⟨before, after, gap, gap', rfl⟩, first, last⟩
    have front : (before ++ text ++ after).dropWhile isBlank = (text ++ after).dropWhile isBlank := by
      rw [List.append_assoc, List.dropWhile_append_of_pos gap]
    cases text with
    | nil =>
      have all : after.dropWhile isBlank = [] := List.dropWhile_eq_nil_iff.mpr gap'
      rw [Text.trim, front, List.nil_append, all]
      rfl
    | cons c text =>
      have stop : (c :: text ++ after).dropWhile isBlank = c :: text ++ after := Text.dropWhile_of_head first
      have back : ∀ b ∈ after.reverse, isBlank b = true := fun b member => gap' b (List.mem_reverse.mp member)
      have ends : (c :: text).reverse.dropWhile isBlank = (c :: text).reverse :=
        Text.dropWhile_of_head (by simpa only [List.head?_reverse] using last)
      rw [Text.trim, front, stop, List.reverse_append, List.dropWhile_append_of_pos back, ends,
        List.reverse_reverse]
  · rintro rfl
    exact Text.trimsTo_trim raw

theorem Text.trim_trim (t : Text) : t.trim.trim = t.trim := by
  have trims := Text.trimsTo_trim t
  have whole : t.trim = [] ++ t.trim ++ [] := by rw [List.nil_append, List.append_nil]
  exact Text.trimsTo_iff.mp ⟨⟨[], [], Text.isGap_nil, Text.isGap_nil, whole⟩, trims.first, trims.last⟩

theorem Text.mem_of_mem_trim {t : Text} {c : Char} (inside : c ∈ t.trim) : c ∈ t := by
  obtain ⟨before, after, -, -, whole⟩ := (Text.trimsTo_trim t).parts
  rw [whole]
  exact List.mem_append_left _ (List.mem_append_right _ inside)

theorem Text.words_append_gap (t : Text) {gap : Text} (blank : gap.IsGap) :
    Text.words (t ++ gap) = Text.words t := by
  cases gap with
  | nil => rw [List.append_nil]
  | cons b gap =>
    obtain ⟨first, rest⟩ := Text.isGap_cons.mp blank
    rw [Text.words_append_cons t gap first, rest.words_eq, List.append_nil]

/-- The words before the first semicolon stay the same if blanks are added at the ends of a text. The
comment itself may take in some of them. -/
theorem Text.code_words_gaps {before after : Text} (gap : before.IsGap) (gap' : after.IsGap) (t : Text) :
    Text.words ((before ++ t ++ after).takeWhile (· ≠ ';')) = Text.words (t.takeWhile (· ≠ ';')) := by
  rw [List.append_assoc, List.takeWhile_append_of_pos gap.no_semicolon, Text.words_gap gap,
    List.takeWhile_append]
  split
  · rename_i whole
    have all : t.takeWhile (· ≠ ';') = t := (List.takeWhile_prefix _).eq_of_length whole
    rw [List.takeWhile_eq_self_iff.mpr gap'.no_semicolon, Text.words_append_gap t gap', all]
  · rfl

theorem Text.code_words_trim (t : Text) :
    Text.words (t.trim.takeWhile (· ≠ ';')) = Text.words (t.takeWhile (· ≠ ';')) := by
  obtain ⟨before, after, gap, gap', whole⟩ := (Text.trimsTo_trim t).parts
  have words := Text.code_words_gaps gap gap' t.trim
  rw [← whole] at words
  exact words.symm

theorem Tokens.trim {t : Text} {words : List Text} (tokens : Tokens t words) : Tokens t.trim words := by
  rw [tokens_iff, Text.code_words_trim]
  exact tokens.words_eq

end OneBit
