import Mathlib.Data.List.TakeWhile
import Mathlib.Data.List.DropRight
import OneBit.Text.Blank

namespace OneBit

def Text.IsGap (t : Text) : Prop := ∀ c ∈ t, isBlank c = true

instance (t : Text) : Decidable t.IsGap := List.decidableBAll _ t

/-- Some characters, none of them a blank or a semicolon. -/
def Text.IsToken (w : Text) : Prop := w ≠ [] ∧ ∀ c ∈ w, isBlank c = false ∧ c ≠ ';'

instance (w : Text) : Decidable w.IsToken :=
  @instDecidableAnd _ _ inferInstance (List.decidableBAll _ w)

/-- A text before which a token cannot grow: it is empty or begins with a blank or a semicolon. -/
def Text.Bounds (t : Text) : Prop := ∀ c ∈ t.head?, isBlank c = true ∨ c = ';'

/-- The tokens of a line up to its comment, in order. Each of them is maximal: before it stands a gap, and
what follows it bounds it. -/
inductive Tokens : Text → List Text → Prop
  | blank {gap} : gap.IsGap → Tokens gap []
  | comment {gap rest} : gap.IsGap → Tokens (gap ++ ';' :: rest) []
  | token {gap word rest words} : gap.IsGap → word.IsToken → rest.Bounds → Tokens rest words →
      Tokens (gap ++ word ++ rest) (word :: words)

theorem Text.isGap_nil : Text.IsGap [] := fun _ member => absurd member List.not_mem_nil

theorem Text.isGap_cons {b : Char} {gap : Text} : Text.IsGap (b :: gap) ↔ isBlank b = true ∧ gap.IsGap :=
  List.forall_mem_cons

theorem Text.words_cons_blank {b : Char} (blank : isBlank b = true) (t : Text) :
    Text.words (b :: t) = Text.words t := by
  have cut := Text.words_append_cons [] t blank
  rwa [List.nil_append, Text.words_nil, List.nil_append] at cut

theorem Text.words_gap {gap : Text} (blank : gap.IsGap) (t : Text) : Text.words (gap ++ t) = Text.words t := by
  induction gap with
  | nil => rfl
  | cons b gap ih =>
    obtain ⟨first, rest⟩ := Text.isGap_cons.mp blank
    rw [List.cons_append, Text.words_cons_blank first, ih rest]

theorem Text.IsGap.words_eq {gap : Text} (blank : gap.IsGap) : Text.words gap = [] := by
  have words := Text.words_gap blank []
  rwa [List.append_nil, Text.words_nil] at words

theorem Text.words_token {word rest : Text} (token : word.IsToken) (bounds : ∀ c ∈ rest.head?, isBlank c = true) :
    Text.words (word ++ rest) = word :: Text.words rest := by
  have solid : Text.words word = [word] := Text.words_of_solid (fun c member => (token.2 c member).1) token.1
  cases rest with
  | nil => simp only [List.append_nil, solid, Text.words_nil]
  | cons b rest =>
    have blank : isBlank b = true := bounds b rfl
    rw [Text.words_append_cons word rest blank, solid, Text.words_cons_blank blank, List.singleton_append]

theorem Text.IsGap.no_semicolon {gap : Text} (blank : gap.IsGap) : ∀ c ∈ gap, decide (c ≠ ';') = true := by
  intro c member
  simp only [decide_eq_true_eq]
  rintro rfl
  exact absurd (blank _ member) (by decide)

theorem Text.IsToken.no_semicolon {word : Text} (token : word.IsToken) :
    ∀ c ∈ word, decide (c ≠ ';') = true := by
  intro c member
  simpa only [decide_eq_true_eq] using (token.2 c member).2

theorem Text.IsToken.feedless {word : Text} (token : word.IsToken) : '\n' ∉ word := by
  intro inside
  exact absurd (token.2 _ inside).1 (by decide)

/-- Reading a line by its grammar gives the words before its first semicolon. -/
theorem Tokens.words_eq {t : Text} {words : List Text} (tokens : Tokens t words) :
    Text.words (t.takeWhile (· ≠ ';')) = words := by
  induction tokens with
  | @blank gap blank =>
    rw [List.takeWhile_eq_self_iff.mpr blank.no_semicolon, blank.words_eq]
  | @comment gap rest blank =>
    rw [List.takeWhile_append_of_pos blank.no_semicolon, Text.words_gap blank]
    rfl
  | @token gap word rest words blank token bounds _ ih =>
    have before : ∀ c ∈ gap ++ word, decide (c ≠ ';') = true := fun c member =>
      (List.mem_append.mp member).elim (blank.no_semicolon c) (token.no_semicolon c)
    have bounded : ∀ c ∈ (rest.takeWhile (· ≠ ';')).head?, isBlank c = true := by
      intro c first
      cases rest with
      | nil => simp at first
      | cons b rest =>
        by_cases comment : b = ';'
        · simp [comment] at first
        · simp only [ne_eq, comment, not_false_eq_true, decide_true, List.takeWhile_cons_of_pos,
            List.head?_cons, Option.mem_some_iff] at first
          subst first
          exact (bounds b rfl).resolve_right comment
    rw [List.takeWhile_append_of_pos before, List.append_assoc, Text.words_gap blank,
      Text.words_token token bounded, ih]

theorem Text.exists_token {c : Char} (solid : isBlank c = false ∧ c ≠ ';') (t : Text) :
    ∃ word rest, c :: t = word ++ rest ∧ Text.IsToken word ∧ Text.Bounds rest := by
  let inside : Char → Bool := fun c => !isBlank c && decide (c ≠ ';')
  have first : inside c = true := by simp [inside, solid]
  refine ⟨(c :: t).takeWhile inside, (c :: t).dropWhile inside,
    List.takeWhile_append_dropWhile.symm, ⟨?_, ?_⟩, ?_⟩
  · simp [List.takeWhile_cons_of_pos first]
  · intro b member
    simpa [inside] using List.mem_takeWhile_imp member
  · intro b member
    have stop := List.head?_dropWhile_not inside (c :: t)
    rw [Option.mem_def.mp member] at stop
    by_cases blank : isBlank b = true
    · exact Or.inl blank
    · simpa [inside, blank] using stop

theorem Tokens.exists_of_text (t : Text) : ∃ words, Tokens t words := by
  induction size : t.length using Nat.strongRecOn generalizing t with
  | ind n ih =>
    have split : t.takeWhile isBlank ++ t.dropWhile isBlank = t := List.takeWhile_append_dropWhile
    have gap : Text.IsGap (t.takeWhile isBlank) := fun c member => List.mem_takeWhile_imp member
    cases after : t.dropWhile isBlank with
    | nil =>
      rw [after, List.append_nil] at split
      exact ⟨[], split ▸ .blank gap⟩
    | cons c tail =>
      rw [after] at split
      by_cases semicolon : c = ';'
      · subst semicolon
        exact ⟨[], split ▸ .comment gap⟩
      · have visible : isBlank c = false := by
          have stop := List.head?_dropWhile_not isBlank t
          simpa [after] using stop
        obtain ⟨word, rest, parts, token, bounds⟩ := Text.exists_token ⟨visible, semicolon⟩ tail
        rw [parts, ← List.append_assoc] at split
        have length := congrArg List.length split
        have filled := List.length_pos_iff.mpr token.1
        simp only [List.length_append] at length
        obtain ⟨words, tokens⟩ := ih rest.length (by omega) rest rfl
        exact ⟨word :: words, split ▸ .token gap token bounds tokens⟩

/-- A line has one reading by the grammar, the words before its first semicolon. -/
theorem tokens_iff {t : Text} {words : List Text} :
    Tokens t words ↔ Text.words (t.takeWhile (· ≠ ';')) = words := by
  constructor
  · exact Tokens.words_eq
  · rintro rfl
    obtain ⟨words, tokens⟩ := Tokens.exists_of_text t
    rwa [tokens.words_eq]

end OneBit
