import OneBit.Proofs.NameSpellings
import OneBit.Proofs.NumeralReading
import OneBit.Proofs.SessionVerdicts

namespace OneBit

/-- An address before its colon, and what follows the colon and a blank. -/
def Text.addressed (t : Text) : Nat × Text :=
  let digits := t.takeWhile (· ≠ ':')
  (ofCapitalHexadecimal digits, t.drop (digits.length + 2))

/-- A line number in eight columns, or in as many as it has digits, and the text behind it. -/
def Text.numbered (t : Text) : Nat × Text :=
  let digits := t.takeWhile Char.isDigit
  (Nat.ofDigitChars 10 digits 0, t.drop (max 8 digits.length))

/-- What a rendered line of a listing says. -/
def ListingLine.ofText (t : Text) : ListingLine :=
  if t.head? = some ' ' then
    let (line, raw) := Text.numbered (t.drop 16)
    .skipped line raw
  else
    let (address, rest) := Text.addressed t
    let (line, text) := Text.numbered (rest.drop 10)
    .emitted address (UInt8.ofNat (ofCapitalHexadecimal (rest.take 2))) line text

/-- An entry in the listing of some session. -/
def ListingLine.Listed (entry : ListingLine) : Prop :=
  ∃ options lines, entry ∈ (Session.feedAll { options } lines).listing

theorem Text.addressed_capitalHexadecimal (width address : Nat) (rest : Text) :
    Text.addressed (capitalHexadecimal width address ++ ':' :: ' ' :: rest) = (address, rest) := by
  have before : ∀ c ∈ capitalHexadecimal width address, decide (c ≠ ':') = true := fun c member =>
    decide_eq_true (hexadecimal_solid member).1
  have digits : (capitalHexadecimal width address ++ ':' :: ' ' :: rest).takeWhile (· ≠ ':') =
      capitalHexadecimal width address := by
    rw [List.takeWhile_append_of_pos before, List.takeWhile_cons_of_neg (by decide), List.append_nil]
  have behind : (capitalHexadecimal width address ++ ':' :: ' ' :: rest).drop
      ((capitalHexadecimal width address).length + 2) = rest := by
    rw [List.drop_append, List.drop_eq_nil_of_le (Nat.le_add_right _ 2), Nat.add_sub_cancel_left]
    rfl
  rw [Text.addressed, digits, ofCapitalHexadecimal_capitalHexadecimal, behind]

theorem undigited_blanks (blanks : Nat) {t : Text} (undigited : t.Undigited) :
    Text.Undigited (List.replicate blanks ' ' ++ t) := by
  intro c first
  cases blanks with
  | zero => exact undigited c first
  | succ blanks =>
    cases first
    decide

theorem Text.numbered_rightpad (line : Nat) {t : Text} (undigited : t.Undigited) :
    Text.numbered ((decimal line).rightpad 8 ' ' ++ t) = (line, t) := by
  have digits : ((decimal line).rightpad 8 ' ' ++ t).takeWhile Char.isDigit = decimal line := by
    rw [List.rightpad, List.append_assoc, takeWhile_isDigit_decimal line (undigited_blanks _ undigited)]
  rw [Text.numbered, digits, ofDigitChars_decimal, List.drop_left' List.length_rightpad]

theorem ListingLine.ofText_render_skipped (line : Nat) {raw : Text} (undigited : raw.Undigited) :
    ListingLine.ofText (ListingLine.skipped line raw).render = .skipped line raw := by
  have blank : (ListingLine.skipped line raw).render.head? = some ' ' := rfl
  have behind : (ListingLine.skipped line raw).render.drop 16 = (decimal line).rightpad 8 ' ' ++ raw := by
    rw [ListingLine.render, List.append_assoc, List.drop_left' List.length_replicate]
  rw [ListingLine.ofText, if_pos blank, behind, Text.numbered_rightpad line undigited]

theorem ListingLine.ofText_render_emitted (address : Nat) (byte : UInt8) (line : Nat) {text : Text}
    (undigited : text.Undigited) :
    ListingLine.ofText (ListingLine.emitted address byte line text).render = .emitted address byte line text := by
  let code := capitalHexadecimal 2 byte.toNat
  let behind := code ++ List.replicate 8 ' ' ++ ((decimal line).rightpad 8 ' ' ++ text)
  have shape : (ListingLine.emitted address byte line text).render =
      capitalHexadecimal 4 address ++ ':' :: ' ' :: behind := by
    simp only [ListingLine.render, behind, code, List.append_assoc, List.cons_append]
  have solid : (capitalHexadecimal 4 address ++ ':' :: ' ' :: behind).head? ≠ some ' ' := by
    intro blank
    have filled : capitalHexadecimal 4 address ≠ [] := by
      rw [← List.length_pos_iff, length_capitalHexadecimal]
      omega
    rw [List.head?_append_of_ne_nil _ filled] at blank
    exact (hexadecimal_solid (List.mem_of_head? blank)).2 rfl
  have columns : (code ++ List.replicate 8 ' ').length = 10 := by
    rw [List.length_append, length_capitalHexadecimal_byte, List.length_replicate]
  have numbered : behind.drop 10 = (decimal line).rightpad 8 ' ' ++ text := List.drop_left' columns
  have coded : behind.take 2 = code := by
    simp only [behind, List.append_assoc]
    exact List.take_left' (length_capitalHexadecimal_byte byte)
  rw [shape, ListingLine.ofText, if_neg solid, Text.addressed_capitalHexadecimal]
  dsimp only
  rw [numbered, coded, Text.numbered_rightpad line undigited, ofCapitalHexadecimal_capitalHexadecimal,
    UInt8.ofNat_toNat]

/-- A skipped line begins with a blank or a comment. -/
theorem SourceLine.undigited_of_skip {line : SourceLine} (skipped : line.verdict = .skip) : line.raw.Undigited := by
  obtain ⟨v, grammar⟩ := LineGrammar.exists_verdict line
  rw [grammar.verdict_eq] at skipped
  subst skipped
  cases grammar with
  | @skip gap rest blank ending raw =>
    rw [raw]
    intro c first
    cases gap with
    | nil =>
      rcases ending with rfl | ⟨comment, rfl⟩
      · cases first
      · cases first
        decide
    | cons b gap =>
      cases first
      exact isDigit_of_isBlank (Text.isGap_cons.mp blank).1

theorem Opcode.names_undigited (o : Opcode) : ∀ name ∈ o.names, name.Undigited := by
  cases o <;> decide

theorem upperChar_of_isDigit {c : Char} (digit : c.isDigit = true) : upperChar c = [c] := by
  have code := Char.isDigit_iff_toNat.mp digit
  have zero : '0'.toNat = 48 := rfl
  have nine : '9'.toNat = 57 := rfl
  have capital : c.toUpper = c := by
    rw [← Char.toNat_inj, toNat_toUpper, if_neg (by omega)]
  rw [upperChar_of_ascii (by omega), capital]

/-- A word that names an opcode begins with no digit, since digits are their own capitals. -/
theorem Opcode.NamedBy.undigited {o : Opcode} {word : Text} (named : o.NamedBy word) : word.Undigited := by
  intro c first
  cases word with
  | nil => cases first
  | cons d word =>
    cases first
    rw [Bool.eq_false_iff]
    intro digit
    have capital := o.names_undigited _ named c (by rw [Text.upper_cons, upperChar_of_isDigit digit]; rfl)
    rw [digit] at capital
    cases capital

/-- The trimmed text of an instruction begins with the name of its opcode. -/
theorem SourceLine.undigited_of_emit {line : SourceLine} {i : Instruction} (emitted : line.verdict = .emit i) :
    line.text.Undigited := by
  obtain ⟨v, grammar⟩ := LineGrammar.exists_verdict line
  rw [grammar.verdict_eq] at emitted
  subst emitted
  cases grammar with
  | @emit first second opcode operand tokens named _ =>
    obtain ⟨rest, tokens, -, -⟩ := tokens
    have trims := Text.trimsTo_trim line.raw
    have trimmed := tokens.trim
    rw [SourceLine.text]
    generalize line.raw.trim = text at trims trimmed
    cases trimmed with
    | @token gap word after words blank token bounds later =>
      -- A trimmed text has no gap before its first word.
      intro c head
      have solid := trims.first c head
      cases gap with
      | nil =>
        rw [List.nil_append, List.head?_append_of_ne_nil _ token.1] at head
        exact named.undigited c head
      | cons b gap =>
        cases head
        rw [(Text.isGap_cons.mp blank).1] at solid
        cases solid

theorem SourceLine.ofText_render_listed {line : SourceLine} {address : Nat} {entry : ListingLine}
    (listed : line.listed? address = some entry) : ListingLine.ofText entry.render = entry := by
  rw [SourceLine.listed?] at listed
  cases verdict : line.verdict with
  | skip =>
    rw [verdict] at listed
    cases listed
    exact ListingLine.ofText_render_skipped _ (SourceLine.undigited_of_skip verdict)
  | emit i =>
    rw [verdict] at listed
    cases listed
    exact ListingLine.ofText_render_emitted _ _ _ (SourceLine.undigited_of_emit verdict)
  | reject e =>
    rw [verdict] at listed
    cases listed

theorem mem_listingFrom {address : Nat} {lines : List SourceLine} {entry : ListingLine}
    (member : entry ∈ listingFrom address lines) : ∃ line ∈ lines, ∃ place, line.listed? place = some entry := by
  induction lines generalizing address with
  | nil => exact absurd member List.not_mem_nil
  | cons line lines ih =>
    rw [listingFrom, List.mem_append, Option.mem_toList] at member
    rcases member with first | later
    · exact ⟨line, List.mem_cons_self, address, first⟩
    · obtain ⟨line', inside, listed⟩ := ih later
      exact ⟨line', List.mem_cons_of_mem line inside, listed⟩

theorem ListingLine.Listed.exists_line {entry : ListingLine} (listed : entry.Listed) :
    ∃ line address, SourceLine.listed? line address = some entry := by
  obtain ⟨options, lines, member⟩ := listed
  have holds := Session.holds_feedAll options lines
  rw [← Array.mem_toList_iff, holds.listing] at member
  split at member
  · obtain ⟨line, -, listed⟩ := mem_listingFrom member
    exact ⟨line, listed⟩
  · exact absurd member List.not_mem_nil

/-- Every line of a listing can be read back from its rendered form, and so no other line of any listing looks like
it, however wide its numbers are. -/
theorem listing_lines_read_back {entry : ListingLine} (listed : entry.Listed) :
    ListingLine.ofText entry.render = entry ∧
      ∀ other : ListingLine, other.Listed → other.render = entry.render → other = entry := by
  have back : ∀ entry : ListingLine, entry.Listed → ListingLine.ofText entry.render = entry := by
    intro entry listed
    obtain ⟨line, address, from_line⟩ := listed.exists_line
    exact SourceLine.ofText_render_listed from_line
  refine ⟨back entry listed, ?_⟩
  intro other otherListed same
  rw [← back other otherListed, same, back entry listed]

/-- The instruction behind 65536 others, and a comment on a line number of eight digits. -/
theorem wide_listing_lines_read_back :
    let entry : ListingLine := .emitted 0x10000 0x1F 123456789 "ld or7;".toList
    let other : ListingLine := .skipped 12345678 "\t; 9".toList
    entry.Listed ∧ other.Listed ∧ entry.render = "10000: 1F        123456789ld or7;".toList ∧
      other.render = "                12345678\t; 9".toList ∧ ListingLine.ofText entry.render = entry ∧
      ListingLine.ofText other.render = other := by
  intro entry other
  let load : SourceLine := ⟨1, "LD".toList⟩
  have loads : load.verdict = .emit ⟨.ld, .scratch 0⟩ := by decide +kernel
  let last : List SourceLine := [⟨12345678, "\t; 9".toList⟩, ⟨123456789, " ld or7;".toList⟩]
  let lines := List.replicate 0x10000 load ++ last
  -- What stands before the two lines is only counted, and not listed line by line.
  have count : (instructionsOf (List.replicate 0x10000 load)).length = 0x10000 := by
    rw [instructionsOf, List.filterMap_replicate_of_some (by rw [loads]; rfl), List.length_replicate]
  have listing : (Session.feedAll { options := { listing := true } } lines).listing.toList =
      listingFrom 0 (List.replicate 0x10000 load) ++ [other, entry] := by
    have tail : listingFrom (0 + 0x10000) last = [other, entry] := by decide +kernel
    rw [(Session.holds_feedAll { listing := true } lines).listing, if_pos rfl, listingFrom_append, count, tail]
  have listed : ∀ e ∈ [other, entry], ListingLine.Listed e := by
    intro e member
    refine ⟨{ listing := true }, lines, ?_⟩
    rw [← Array.mem_toList_iff, listing]
    exact List.mem_append_right _ member
  have entryListed := listed entry (by decide)
  have otherListed := listed other (by decide)
  exact ⟨entryListed, otherListed, by decide +kernel, by decide +kernel, (listing_lines_read_back entryListed).1,
    (listing_lines_read_back otherListed).1⟩

end OneBit
