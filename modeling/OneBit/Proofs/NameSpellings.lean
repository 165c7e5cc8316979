import Mathlib.Data.List.Infix
import OneBit.Proofs.AsciiLetters
import OneBit.Proofs.LineGrammar

namespace OneBit

/-- The characters beyond ASCII whose capitals are in ASCII, with these: the dotless i, the long and the sharp s, and the
Latin ligatures. -/
def asciiCapitals : List (Char × Text) :=
  [('ı', "I".toList), ('ſ', "S".toList), ('ß', "SS".toList), ('ﬀ', "FF".toList), ('ﬁ', "FI".toList),
    ('ﬂ', "FL".toList), ('ﬃ', "FFI".toList), ('ﬄ', "FFL".toList), ('ﬅ', "ST".toList), ('ﬆ', "ST".toList)]

/-- Pairs that begin the capitals of one character and are in no name. -/
def foreignPairs : List Text := ["SS".toList, "FF".toList, "FI".toList, "FL".toList]

/-- A character may be written for one of a name if it is the same letter in either case, or one of two letters beyond
ASCII. -/
def WrittenFor (d c : Char) : Prop := SameLetter c d ∨ c = 'S' ∧ d = 'ſ' ∨ c = 'I' ∧ d = 'ı'

/-- A word spells a name with one character for each of the name, or with a ligature for two of them. -/
inductive Text.Spells : Text → Text → Prop
  | nil : Spells [] []
  | letter {c d word name} : WrittenFor d c → Spells word name → Spells (d :: word) (c :: name)
  | ligature {d word name} : d = 'ﬅ' ∨ d = 'ﬆ' → Spells word name → Spells (d :: word) ('S' :: 'T' :: name)

/-- An opcode is spelled by its mnemonic, and the last one by `HLT` too. -/
def Opcode.SpelledBy (o : Opcode) (word : Text) : Prop :=
  word.Spells o.mnemonic ∨ o = .nopf ∧ word.Spells "HLT".toList

/-- An operand is spelled by the name of what it reads and by the name of what it writes. -/
def Operand.SpelledBy (r : Operand) (word : Text) : Prop := word.Spells r.readName ∨ word.Spells r.writeName

/-- Names are written in capitals and digits of ASCII. -/
def Text.IsName (name : Text) : Prop :=
  (∀ c ∈ name, c.toNat < 128 ∧ c.toUpper = c) ∧ ∀ pair ∈ foreignPairs, ¬pair <:+: name

instance (name : Text) : Decidable name.IsName :=
  @instDecidableAnd _ _ (List.decidableBAll _ name) inferInstance

theorem upperChar_of_mem_asciiCapitals : ∀ entry ∈ asciiCapitals, upperChar entry.1 = entry.2 := by
  decide +kernel

/-- In the table of capital forms, those within ASCII belong to ten characters. -/
theorem caseExpansions_into_ascii : ∀ entry ∈ caseExpansions, (∀ code ∈ entry.2, code < 0xD800) ∧
    ((∀ code ∈ entry.2, code < 128) → entry.1 ∈ asciiCapitals.map (·.1.toNat)) := by
  decide

/-- Two of the runs have one character each and lead into ASCII, and all others lead to characters beyond it. -/
theorem caseRuns_into_ascii : ∀ run ∈ caseRuns,
    run.first = run.last ∧ run.first ∈ asciiCapitals.map (·.1.toNat) ∨
      128 ≤ run.first + run.shift ∧
        (run.last + run.shift < 0xD800 ∨ 0xDFFF < run.first + run.shift ∧ run.last + run.shift < 0x110000) := by
  decide +kernel

theorem toNat_ofNat_of_valid {n : Nat} (valid : n < 0xD800 ∨ 0xDFFF < n ∧ n < 0x110000) : (Char.ofNat n).toNat = n := by
  rw [Char.ofNat, dif_pos valid]
  rfl

theorem exists_asciiCapitals {d : Char} (member : d.toNat ∈ asciiCapitals.map (·.1.toNat)) :
    ∃ capitals, (d, capitals) ∈ asciiCapitals := by
  obtain ⟨⟨c, capitals⟩, inside, same⟩ := List.mem_map.mp member
  rw [Char.toNat_inj] at same
  exact ⟨capitals, same ▸ inside⟩

theorem upperChar_of_ascii {d : Char} (small : d.toNat < 128) : upperChar d = [d.toUpper] := if_pos small

/-- Capitals in ASCII come from ASCII itself and from ten other characters. -/
theorem ascii_of_upperChar {d : Char} (ascii : ∀ c ∈ upperChar d, c.toNat < 128) :
    d.toNat < 128 ∨ ∃ capitals, (d, capitals) ∈ asciiCapitals := by
  by_cases small : d.toNat < 128
  · exact Or.inl small
  right
  apply exists_asciiCapitals
  rw [upperChar, if_neg small] at ascii
  cases expansion : caseExpansions.lookup d.toNat with
  | some codes =>
    obtain ⟨front, back, table, -⟩ := List.lookup_eq_some_iff.mp expansion
    have entry : (d.toNat, codes) ∈ caseExpansions := by
      rw [table]
      exact List.mem_append_right front List.mem_cons_self
    obtain ⟨valid, exceptional⟩ := caseExpansions_into_ascii _ entry
    apply exceptional
    intro code member
    rw [expansion] at ascii
    have capital := ascii _ (List.mem_map_of_mem member)
    rwa [toNat_ofNat_of_valid (Or.inl (valid code member))] at capital
  | none =>
    cases found : caseRuns.find? (·.covers d.toNat) with
    | none =>
      simp only [expansion, found, List.mem_singleton, forall_eq] at ascii
      exact absurd ascii small
    | some run =>
      have covered := List.find?_some found
      simp only [CaseRun.covers, Bool.and_eq_true, decide_eq_true_eq] at covered
      simp only [expansion, found, List.mem_singleton, forall_eq] at ascii
      rcases caseRuns_into_ascii run (List.mem_of_find?_eq_some found) with ⟨single, member⟩ | ⟨beyond, valid⟩
      · have here : d.toNat = run.first := by omega
        rwa [here]
      · rw [toNat_ofNat_of_valid (by omega)] at ascii
        omega

/-- Four of the ten characters can be written in names, and the capitals of the others begin with a foreign pair. -/
theorem asciiCapitals_cases : ∀ entry ∈ asciiCapitals,
    entry = ('ı', ['I']) ∨ entry = ('ſ', ['S']) ∨ (entry.1 = 'ﬅ' ∨ entry.1 = 'ﬆ') ∧ entry.2 = ['S', 'T'] ∨
      ∃ pair ∈ foreignPairs, pair <+: entry.2 := by
  decide

theorem Text.IsName.tail {c : Char} {name : Text} (named : Text.IsName (c :: name)) : name.IsName :=
  ⟨fun _ member => named.1 _ (List.mem_cons_of_mem c member),
    fun pair member inside => named.2 pair member (List.infix_cons inside)⟩

/-- A character that is written for one of a name becomes it among the capitals. -/
theorem WrittenFor.upperChar_eq {c d : Char} (written : WrittenFor d c) (named : c.toNat < 128 ∧ c.toUpper = c) :
    upperChar d = [c] := by
  obtain ⟨ascii, capital⟩ := named
  rcases written with same | ⟨rfl, rfl⟩ | ⟨rfl, rfl⟩
  · have small : d.toNat < 128 := by
      rcases same with rfl | rfl | rfl
      · exact ascii
      · rwa [capital]
      · rw [toNat_toLower]
        split <;> omega
    rw [upperChar_of_ascii small, ← (sameLetter_iff c d).mp same, capital]
  · exact upperChar_of_mem_asciiCapitals _ (by decide : ('ſ', "S".toList) ∈ asciiCapitals)
  · exact upperChar_of_mem_asciiCapitals _ (by decide : ('ı', "I".toList) ∈ asciiCapitals)

theorem Text.Spells.upper_eq {word name : Text} (spells : word.Spells name) (named : name.IsName) :
    word.upper = name := by
  induction spells with
  | nil => rfl
  | @letter c d word name written _ ih =>
    have first := written.upperChar_eq (named.1 c List.mem_cons_self)
    rw [Text.upper_cons, first, ih named.tail, List.singleton_append]
  | @ligature d word name joined _ ih =>
    have pair : upperChar d = ['S', 'T'] := by
      rcases joined with rfl | rfl <;> decide
    rw [Text.upper_cons, pair, ih named.tail.tail, List.cons_append, List.singleton_append]

theorem Text.Spells.of_upper {word : Text} (named : word.upper.IsName) : word.Spells word.upper := by
  induction word with
  | nil => exact .nil
  | cons d word ih =>
    rw [Text.upper_cons] at named ⊢
    have ascii : ∀ c ∈ upperChar d, c.toNat < 128 := fun c member => (named.1 c (List.mem_append_left _ member)).1
    rcases ascii_of_upperChar ascii with small | ⟨capitals, exceptional⟩
    · rw [upperChar_of_ascii small, List.singleton_append] at named ⊢
      have capital := (named.1 _ List.mem_cons_self).2
      exact .letter (Or.inl ((sameLetter_iff _ _).mpr capital)) (ih named.tail)
    · rw [upperChar_of_mem_asciiCapitals _ exceptional] at named ⊢
      rcases asciiCapitals_cases _ exceptional with dotless | long | ⟨joined, letters⟩ | ⟨pair, foreign, first⟩
      · cases dotless
        exact .letter (Or.inr (Or.inr ⟨rfl, rfl⟩)) (ih named.tail)
      · cases long
        exact .letter (Or.inr (Or.inl ⟨rfl, rfl⟩)) (ih named.tail)
      · rw [letters] at named ⊢
        exact .ligature joined (ih named.tail.tail)
      · exact absurd (first.isInfix.trans (List.prefix_append _ _).isInfix) (named.2 pair foreign)

/-- The spellings of a name are the words whose capitals are the name. -/
theorem Text.spells_iff {word name : Text} (named : name.IsName) : word.Spells name ↔ word.upper = name := by
  constructor
  · intro spells
    exact spells.upper_eq named
  · rintro rfl
    exact .of_upper named

theorem Opcode.isName_mnemonic (o : Opcode) : o.mnemonic.IsName := by
  cases o <;> decide

theorem Operand.isName_names (r : Operand) : r.readName.IsName ∧ r.writeName.IsName := by
  rw [← r.ofNibble_value]
  generalize r.value = nibble
  revert nibble
  decide

theorem Opcode.spelledBy_iff {o : Opcode} {word : Text} : o.SpelledBy word ↔ Opcode.ofWord? word = some o := by
  rw [Opcode.ofWord?_eq_some_iff, Opcode.SpelledBy, Text.spells_iff o.isName_mnemonic,
    Text.spells_iff (by decide : Text.IsName "HLT".toList), Opcode.NamedBy]
  cases o <;> simp [Opcode.names]

theorem Operand.spelledBy_iff {r : Operand} {word : Text} : r.SpelledBy word ↔ Operand.ofWord? word = some r := by
  obtain ⟨read, written⟩ := r.isName_names
  rw [Operand.ofWord?_eq_some_iff, Operand.SpelledBy, Text.spells_iff read, Text.spells_iff written, Operand.NamedBy]

/-- A word leads to an opcode or to an operand exactly if it spells one of its names, with the letters in either case,
with two letters beyond ASCII for `I` and `S`, and with two ligatures for `ST`. No word spells two of either. -/
theorem word_resolves_iff_spelled (word : Text) :
    (∀ o : Opcode, Opcode.ofWord? word = some o ↔ o.SpelledBy word) ∧
    (∀ r : Operand, Operand.ofWord? word = some r ↔ r.SpelledBy word) ∧
    (∀ o o' : Opcode, o.SpelledBy word → o'.SpelledBy word → o = o') ∧
    ∀ r r' : Operand, r.SpelledBy word → r'.SpelledBy word → r = r' := by
  refine ⟨fun o => Opcode.spelledBy_iff.symm, fun r => Operand.spelledBy_iff.symm, ?_, ?_⟩
  · intro o o' spelled spelled'
    rw [Opcode.spelledBy_iff] at spelled spelled'
    exact Option.some.inj (spelled.symm.trans spelled')
  · intro r r' spelled spelled'
    rw [Operand.spelledBy_iff] at spelled spelled'
    exact Option.some.inj (spelled.symm.trans spelled')

/-- A ligature stands for the first two letters of `STOC`, and the other ligatures for nothing. -/
example : Opcode.ofWord? "ﬅOc".toList = some .stoc ∧ Operand.ofWord? "ıR3".toList = Operand.ofWord? "or3".toList ∧
    Opcode.ofWord? "noﬁ".toList = none := by decide +kernel

end OneBit
