import Mathlib.Algebra.GroupWithZero.Nat
import OneBit.InputBits
import OneBit.Proofs.MachineStep
import OneBit.Proofs.NumeralReading
import OneBit.Proofs.Trimming

namespace OneBit

/-- A text holds one to seven binary digits between gaps. -/
structure InputNumeral (given digits : Text) : Prop where
  parts : ∃ before after, Text.IsGap before ∧ Text.IsGap after ∧ given = before ++ digits ++ after
  binary : ∀ c ∈ digits, c = '0' ∨ c = '1'
  filled : 1 ≤ digits.length
  short : digits.length ≤ 7

/-- Inputs 1 to 7 have taken binary digits, the last digit first. An input without a digit is clear, and all else is as
it was. -/
structure Machine.TakesDigits (m next : Machine) (digits : Text) : Prop where
  inputs : ∀ k : Fin 8, k.val ≠ 0 → (next.inputs.get k = true ↔ digits.reverse[k.val - 1]? = some '1')
  first : ∀ k : Fin 8, k.val = 0 → next.inputs.get k = m.inputs.get k
  others : next = { m with inputs := next.inputs }

/-- No bytes at all, or more than seven. -/
def Text.Unfit (t : Text) : Prop := (String.ofList t).utf8ByteSize = 0 ∨ 7 < (String.ofList t).utf8ByteSize

instance (t : Text) : Decidable t.Unfit := instDecidableOr

theorem Text.utf8Length_concat (t : Text) (c : Char) : Text.utf8Length (t ++ [c]) = t.utf8Length + c.utf8Size := by
  rw [Text.utf8Length, List.foldl_append]
  rfl

/-- The length is that of the text as UTF-8. -/
theorem Text.utf8Length_eq (t : Text) : t.utf8Length = (String.ofList t).utf8ByteSize := by
  induction t using List.reverseRecOn with
  | nil => rfl
  | append_singleton t c ih =>
    have last : (String.ofList [c]).utf8ByteSize = c.utf8Size := by
      rw [← String.singleton_eq_ofList, String.utf8ByteSize_singleton]
    rw [Text.utf8Length_concat, ih, String.ofList_append, String.utf8ByteSize_append, last]

theorem Text.unfit_iff {t : Text} : t.Unfit ↔ t = [] ∨ 7 < t.utf8Length := by
  have empty : (String.ofList t).utf8ByteSize = 0 ↔ t = [] := by
    rw [String.utf8ByteSize_eq_zero_iff, ← String.ofList_nil, String.ofList_inj]
  rw [Text.Unfit, empty, Text.utf8Length_eq]

theorem isBinaryDigit_iff {c : Char} : isBinaryDigit c = true ↔ c = '0' ∨ c = '1' := by
  rw [isBinaryDigit, Bool.or_eq_true, beq_iff_eq, beq_iff_eq]

theorem all_isBinaryDigit_iff {t : Text} : t.all isBinaryDigit = true ↔ ∀ c ∈ t, c = '0' ∨ c = '1' := by
  simp only [List.all_eq_true, isBinaryDigit_iff]

/-- A binary digit takes one byte. -/
theorem Text.utf8Length_of_binary {t : Text} (binary : ∀ c ∈ t, c = '0' ∨ c = '1') : t.utf8Length = t.length := by
  induction t using List.reverseRecOn with
  | nil => rfl
  | append_singleton t c ih =>
    have one : c.utf8Size = 1 := by
      rcases binary c (List.mem_append_right t List.mem_cons_self) with rfl | rfl
      · rfl
      · rfl
    rw [Text.utf8Length_concat, ih fun c member => binary c (List.mem_append_left _ member), one, List.length_append,
      List.length_singleton]

theorem Text.fit_iff_of_binary {t : Text} (binary : ∀ c ∈ t, c = '0' ∨ c = '1') :
    ¬ t.Unfit ↔ 1 ≤ t.length ∧ t.length ≤ 7 := by
  rw [Text.unfit_iff, Text.utf8Length_of_binary binary, ← List.length_eq_zero_iff]
  omega

theorem binaryValue_eq_foldl (digits : Text) : binaryValue digits =
    (digits.map fun digit => decide (digit = '1')).foldl (fun value bit => 2 * value + bit.toNat) 0 := by
  have digit : ∀ c : Char, (decide (c = '1')).toNat = if c = '1' then 1 else 0 := fun c =>
    apply_ite Bool.toNat (c = '1') true false
  rw [binaryValue, List.foldl_map]
  simp only [digit]

theorem testBit_binaryValue {digits : Text} {place : Nat} :
    (binaryValue digits).testBit place = true ↔ digits.reverse[place]? = some '1' := by
  rw [binaryValue_eq_foldl, testBit_foldl_bits, ← List.map_reverse, List.getElem?_map]
  cases digits.reverse[place]? with
  | none => simp
  | some digit => simp

theorem binaryValue_lt (digits : Text) : binaryValue digits < 2 ^ digits.length := by
  apply Nat.lt_pow_two_of_testBit
  intro place beyond
  have none : digits.reverse[place]? = none := List.getElem?_eq_none (by rwa [List.length_reverse])
  rw [Bool.eq_false_iff, ne_eq, testBit_binaryValue, none]
  exact Option.some_ne_none '1' ∘ Eq.symm

/-- Up to eight binary digits are the numeral of a byte. -/
theorem binaryByte?_of_binary {digits : Text} (filled : digits ≠ []) (binary : digits.all isBinaryDigit = true)
    (short : digits.length ≤ 8) : binaryByte? digits = some (UInt8.ofNat (binaryValue digits)) := by
  have unsigned : digits.head? ≠ some '+' := by
    intro sign
    have digit := List.all_eq_true.mp binary '+' (List.mem_of_head? sign)
    exact absurd digit (by decide)
  have small : binaryValue digits < 256 :=
    (binaryValue_lt digits).trans_le (Nat.pow_le_pow_right (by decide) short)
  rw [binaryByte?, if_neg unsigned]
  exact if_pos ⟨filled, binary, small⟩

/-- What comes to the conversion is converted. -/
theorem binaryByte?_of_fit {digits : Text} (fit : ¬ digits.Unfit) (binary : digits.all isBinaryDigit = true) :
    binaryByte? digits = some (UInt8.ofNat (binaryValue digits)) := by
  obtain ⟨filled, short⟩ := (Text.fit_iff_of_binary (all_isBinaryDigit_iff.mp binary)).mp fit
  exact binaryByte?_of_binary (List.length_pos_iff.mp filled) binary (by omega)

theorem parseInputBits_eq (given : Text) : parseInputBits given =
    if given.trim.Unfit then .error (.wrongLength given)
    else if given.trim.all isBinaryDigit then .ok (UInt8.ofNat (binaryValue given.trim))
    else .error (.notBinary given) := by
  simp only [parseInputBits, ← Text.unfit_iff]
  split
  · rfl
  · rename_i fit
    split
    · rename_i binary
      rw [binaryByte?_of_fit fit binary]
    · rfl

/-- Trimming leaves exactly the digits. -/
theorem InputNumeral.trim_eq {given digits : Text} (numeral : InputNumeral given digits) : given.trim = digits := by
  have solid : ∀ c ∈ digits, isBlank c = false := by
    intro c member
    rcases numeral.binary c member with rfl | rfl
    · decide
    · decide
  refine Text.trimsTo_iff.mp ⟨numeral.parts, ?_, ?_⟩
  · exact fun c first => solid c (List.mem_of_head? first)
  · exact fun c last => solid c (List.mem_of_getLast? last)

theorem inputNumeral_iff {given digits : Text} : InputNumeral given digits ↔
    given.trim = digits ∧ ¬ digits.Unfit ∧ digits.all isBinaryDigit = true := by
  constructor
  · intro numeral
    have fit := (Text.fit_iff_of_binary numeral.binary).mpr ⟨numeral.filled, numeral.short⟩
    exact ⟨numeral.trim_eq, fit, all_isBinaryDigit_iff.mpr numeral.binary⟩
  · rintro ⟨rfl, fit, binary⟩
    have digits := all_isBinaryDigit_iff.mp binary
    obtain ⟨filled, short⟩ := (Text.fit_iff_of_binary digits).mp fit
    exact ⟨(Text.trimsTo_trim given).parts, digits, filled, short⟩

theorem Machine.takesDigits_loadInputs (m : Machine) {digits : Text} (short : digits.length ≤ 7) :
    m.TakesDigits (m.loadInputs (UInt8.ofNat (binaryValue digits))) digits := by
  have small : binaryValue digits < 2 ^ 8 :=
    (binaryValue_lt digits).trans_le (Nat.pow_le_pow_right (by decide) (by omega))
  have value : (UInt8.ofNat (binaryValue digits)).toNat = binaryValue digits := by
    rw [UInt8.toNat_ofNat', Nat.mod_eq_of_lt small]
  constructor
  case inputs =>
    intro k positive
    rw [Machine.get_loadInputs, if_neg positive, value, testBit_binaryValue]
  case first =>
    intro k zero
    rw [Machine.get_loadInputs, if_pos zero]
  case others => rfl

/-- Messages with different first characters differ, whatever they quote. -/
theorem InputBitsError.message_of_wrongLength_ne (given : Text) :
    (InputBitsError.wrongLength given).message ≠ (InputBitsError.notBinary given).message := by
  -- Stated for any strings, because rewriting the messages themselves would take their literals apart.
  have head : ∀ front quoted back : String, front.toList ≠ [] →
      (front ++ quoted ++ back).toList.head? = front.toList.head? := by
    intro front quoted back filled
    rw [String.append_assoc, String.toList_append, List.head?_append_of_ne_nil _ filled]
  intro same
  have first := head "expected 1 to 7 binary digits, got '" (String.ofList given) "'" (by decide)
  have second := head "not a binary number: '" (String.ofList given) "'" (by decide)
  have heads := first.symm.trans ((congrArg (fun message : String => message.toList.head?) same).trans second)
  exact absurd heads (by decide)

/-- A text is a value for the inputs exactly if it holds a numeral, and then input `k` takes the `k`-th digit from the
right. Of the other texts, those whose trimmed form has no bytes or more than seven are refused for their length, and
the rest because they are not binary. No text fails in the conversion that comes after these two tests. -/
theorem input_numerals_land_on_inputs (given : Text) :
    ((∃ bits, parseInputBits given = .ok bits) ↔ ∃ digits, InputNumeral given digits) ∧
    (∀ digits, InputNumeral given digits → ∃ bits, parseInputBits given = .ok bits ∧ bits.toNat < 128 ∧
      ∀ m : Machine, m.TakesDigits (m.loadInputs bits) digits) ∧
    ((¬ ∃ digits, InputNumeral given digits) → ∃ error, parseInputBits given = .error error ∧
      (error.message = "expected 1 to 7 binary digits, got '" ++ String.ofList given ++ "'" ↔ given.trim.Unfit) ∧
      (error.message = "not a binary number: '" ++ String.ofList given ++ "'" ↔ ¬ given.trim.Unfit)) ∧
    (¬ given.trim.Unfit → given.trim.all isBinaryDigit = true → ∃ bits, binaryByte? given.trim = some bits) := by
  have accepted : ∀ digits, InputNumeral given digits →
      parseInputBits given = .ok (UInt8.ofNat (binaryValue digits)) := by
    intro digits numeral
    obtain ⟨trimmed, fit, binary⟩ := inputNumeral_iff.mp numeral
    rw [parseInputBits_eq, trimmed, if_neg fit, if_pos binary]
  refine ⟨⟨?_, ?_⟩, ?_, ?_, ?_⟩
  · rintro ⟨bits, parsed⟩
    rw [parseInputBits_eq] at parsed
    split at parsed
    · cases parsed
    · rename_i fit
      split at parsed
      · rename_i binary
        exact ⟨given.trim, inputNumeral_iff.mpr ⟨rfl, fit, binary⟩⟩
      · cases parsed
  · rintro ⟨digits, numeral⟩
    exact ⟨_, accepted digits numeral⟩
  · intro digits numeral
    refine ⟨_, accepted digits numeral, ?_, fun m => m.takesDigits_loadInputs numeral.short⟩
    have small : binaryValue digits < 128 :=
      (binaryValue_lt digits).trans_le (Nat.pow_le_pow_right (by decide) numeral.short)
    rwa [UInt8.toNat_ofNat', Nat.mod_eq_of_lt (by omega)]
  · intro none
    have differ := InputBitsError.message_of_wrongLength_ne given
    rw [parseInputBits_eq]
    by_cases unfit : given.trim.Unfit
    · rw [if_pos unfit]
      refine ⟨.wrongLength given, rfl, iff_of_true rfl unfit, iff_of_false differ ?_⟩
      exact fun fit => fit unfit
    · have other : ¬ given.trim.all isBinaryDigit = true := fun binary =>
        none ⟨given.trim, inputNumeral_iff.mpr ⟨rfl, unfit, binary⟩⟩
      rw [if_neg unfit, if_neg other]
      exact ⟨.notBinary given, rfl, iff_of_false differ.symm unfit, iff_of_true rfl unfit⟩
  · exact fun fit binary => ⟨_, binaryByte?_of_fit fit binary⟩

/-- Digits behind a wide blank and before the end of their line, five characters of eight bytes, and a sign that the
conversion alone would allow. -/
theorem input_numeral_between_wide_blanks :
    let given : Text := "\u3000 0101\r\n".toList
    let wide : Text := "\u00e91\u00e91\u00e9".toList
    let signed : Text := "+1".toList
    InputNumeral given "0101".toList ∧
      (∃ bits, parseInputBits given = .ok bits ∧ bits.toNat < 128 ∧
        ∀ m : Machine, m.TakesDigits (m.loadInputs bits) "0101".toList) ∧
      (¬ ∃ digits, InputNumeral wide digits) ∧ wide.trim.Unfit ∧
      (∃ error, parseInputBits wide = .error error ∧
        error.message = "expected 1 to 7 binary digits, got '" ++ String.ofList wide ++ "'") ∧
      (¬ ∃ digits, InputNumeral signed digits) ∧ ¬ signed.trim.Unfit ∧
      (∃ error, parseInputBits signed = .error error ∧
        error.message = "not a binary number: '" ++ String.ofList signed ++ "'") ∧
      ¬ given.trim.Unfit ∧ given.trim.all isBinaryDigit = true ∧ ∃ bits, binaryByte? given.trim = some bits := by
  intro given wide signed
  have numeral : InputNumeral given "0101".toList :=
    inputNumeral_iff.mpr ⟨by decide, by rw [Text.unfit_iff]; decide, by decide⟩
  have unfit : wide.trim.Unfit := Text.unfit_iff.mpr (by decide)
  have fit : ¬ given.trim.Unfit := by rw [Text.unfit_iff]; decide
  have signedFit : ¬ signed.trim.Unfit := by rw [Text.unfit_iff]; decide
  have notWide : ¬ ∃ digits, InputNumeral wide digits := by
    rintro ⟨digits, holds⟩
    obtain ⟨rfl, fit, -⟩ := inputNumeral_iff.mp holds
    exact fit unfit
  have notSigned : ¬ ∃ digits, InputNumeral signed digits := by
    rintro ⟨digits, holds⟩
    obtain ⟨rfl, -, binary⟩ := inputNumeral_iff.mp holds
    exact absurd binary (by decide)
  obtain ⟨-, accepted, -, converted⟩ := input_numerals_land_on_inputs given
  obtain ⟨-, -, wideRefused, -⟩ := input_numerals_land_on_inputs wide
  obtain ⟨-, -, signedRefused, -⟩ := input_numerals_land_on_inputs signed
  obtain ⟨tooLong, refused, tooLongText, -⟩ := wideRefused notWide
  obtain ⟨notBinary, refused', -, notBinaryText⟩ := signedRefused notSigned
  have binary : given.trim.all isBinaryDigit = true := by decide
  exact ⟨numeral, accepted _ numeral, notWide, unfit, ⟨tooLong, refused, tooLongText.mpr unfit⟩, notSigned, signedFit,
    ⟨notBinary, refused', notBinaryText.mpr signedFit⟩, fit, binary, converted fit binary⟩

end OneBit
