import Mathlib.Data.List.Induction
import OneBit.Text.Numeral

namespace OneBit

/-- The value of a hexadecimal digit in capitals. -/
def capitalDigitValue (c : Char) : Nat := if c.isDigit then c.toNat - '0'.toNat else c.toNat - 'A'.toNat + 10

/-- The number that hexadecimal digits in capitals stand for. -/
def ofCapitalHexadecimal (digits : Text) : Nat :=
  digits.foldl (fun value c => 16 * value + capitalDigitValue c) 0

theorem capitalDigitValue_digitChar {d : Nat} (small : d < 16) : capitalDigitValue (Nat.digitChar d).toUpper = d := by
  have all : ∀ d : Fin 16, capitalDigitValue (Nat.digitChar d).toUpper = d := by decide
  exact all ⟨d, small⟩

theorem ofCapitalHexadecimal_append_digit (digits : Text) {d : Nat} (small : d < 16) :
    ofCapitalHexadecimal (digits ++ [(Nat.digitChar d).toUpper]) = 16 * ofCapitalHexadecimal digits + d := by
  rw [ofCapitalHexadecimal, List.foldl_append, List.foldl_cons, List.foldl_nil, capitalDigitValue_digitChar small,
    ofCapitalHexadecimal]

/-- Zeros in front of a numeral do not count. -/
theorem ofCapitalHexadecimal_zeros (zeros : Nat) (digits : Text) :
    ofCapitalHexadecimal (List.replicate zeros '0' ++ digits) = ofCapitalHexadecimal digits := by
  induction zeros with
  | zero => rfl
  | succ zeros ih => exact ih

theorem ofCapitalHexadecimal_toDigits (n : Nat) :
    ofCapitalHexadecimal ((Nat.toDigits 16 n).map Char.toUpper) = n := by
  induction n using Nat.strongRecOn with
  | ind n ih =>
    rw [Nat.toDigits_eq_if (by decide)]
    split
    · rename_i small
      exact (ofCapitalHexadecimal_append_digit [] small).trans (Nat.zero_add n)
    · rename_i large
      have last := Nat.mod_lt n (by decide : 0 < 16)
      rw [List.map_append, List.map_singleton, ofCapitalHexadecimal_append_digit _ last, ih (n / 16) (by omega)]
      omega

theorem capitalHexadecimal_eq (width n : Nat) : capitalHexadecimal width n =
    List.replicate (width - (Nat.toDigits 16 n).length) '0' ++ (Nat.toDigits 16 n).map Char.toUpper := by
  rw [capitalHexadecimal, hexadecimal, List.leftpad, List.map_append, List.map_replicate]
  rfl

theorem ofCapitalHexadecimal_capitalHexadecimal (width n : Nat) :
    ofCapitalHexadecimal (capitalHexadecimal width n) = n := by
  rw [capitalHexadecimal_eq, ofCapitalHexadecimal_zeros, ofCapitalHexadecimal_toDigits]

theorem exists_digit_of_mem_toDigits {n : Nat} {c : Char} (member : c ∈ Nat.toDigits 16 n) :
    ∃ d : Fin 16, c = Nat.digitChar d := by
  induction n using Nat.strongRecOn with
  | ind n ih =>
    rw [Nat.toDigits_eq_if (by decide)] at member
    split at member
    · rename_i small
      exact ⟨⟨n, small⟩, List.mem_singleton.mp member⟩
    · rcases List.mem_append.mp member with front | last
      · exact ih (n / 16) (by omega) front
      · exact ⟨⟨n % 16, by omega⟩, List.mem_singleton.mp last⟩

theorem exists_digit_of_mem_capitalHexadecimal {width n : Nat} {c : Char} (member : c ∈ capitalHexadecimal width n) :
    ∃ d : Fin 16, c = (Nat.digitChar d).toUpper := by
  rw [capitalHexadecimal_eq] at member
  rcases List.mem_append.mp member with zero | digit
  · exact ⟨⟨0, by decide⟩, List.eq_of_mem_replicate zero⟩
  · obtain ⟨lower, inside, rfl⟩ := List.mem_map.mp digit
    obtain ⟨d, rfl⟩ := exists_digit_of_mem_toDigits inside
    exact ⟨d, rfl⟩

/-- A hexadecimal digit is neither a colon nor a space. -/
theorem hexadecimal_solid {width n : Nat} {c : Char} (member : c ∈ capitalHexadecimal width n) : c ≠ ':' ∧ c ≠ ' ' := by
  obtain ⟨d, rfl⟩ := exists_digit_of_mem_capitalHexadecimal member
  have all : ∀ d : Fin 16, (Nat.digitChar d).toUpper ≠ ':' ∧ (Nat.digitChar d).toUpper ≠ ' ' := by decide
  exact all d

theorem length_capitalHexadecimal (width n : Nat) :
    (capitalHexadecimal width n).length = max width (Nat.toDigits 16 n).length := by
  rw [capitalHexadecimal, hexadecimal, List.length_map, List.length_leftpad]

theorem length_capitalHexadecimal_byte (byte : UInt8) : (capitalHexadecimal 2 byte.toNat).length = 2 := by
  have short := (Nat.length_toDigits_le_iff (b := 16) (by decide) (by decide : 0 < 2)).mpr byte.toNat_lt
  rw [length_capitalHexadecimal, Nat.max_eq_left short]

theorem isDigit_of_mem_decimal {n : Nat} {c : Char} (member : c ∈ decimal n) : c.isDigit = true :=
  Nat.isDigit_of_mem_toDigits (by decide) (by decide) member

theorem decimal_feedless (n : Nat) : '\n' ∉ decimal n := by
  intro member
  exact absurd (isDigit_of_mem_decimal member) (by decide)

theorem isDigit_of_isBlank {c : Char} (blank : isBlank c = true) : c.isDigit = false := by
  rw [Bool.eq_false_iff, ne_eq, Char.isDigit_iff_toNat]
  simp only [isBlank, blankRanges, List.any_cons, List.any_nil, Bool.or_eq_true, Bool.and_eq_true,
    decide_eq_true_eq, Bool.false_eq_true, or_false] at blank
  have zero : '0'.toNat = 48 := rfl
  have nine : '9'.toNat = 57 := rfl
  omega

theorem ofDigitChars_decimal (n : Nat) : Nat.ofDigitChars 10 (decimal n) 0 = n :=
  Nat.ofDigitChars_toDigits (by decide) (by decide)

/-- A text that cannot lengthen a decimal numeral before it. -/
def Text.Undigited (t : Text) : Prop := ∀ c ∈ t.head?, c.isDigit = false

instance (t : Text) : Decidable t.Undigited := Option.decidableForallMem t.head?

theorem takeWhile_isDigit_decimal (n : Nat) {t : Text} (undigited : t.Undigited) :
    (decimal n ++ t).takeWhile Char.isDigit = decimal n := by
  rw [List.takeWhile_append_of_pos fun c member => isDigit_of_mem_decimal member]
  cases t with
  | nil => rw [List.takeWhile_nil, List.append_nil]
  | cons c t =>
    have other : c.isDigit = false := undigited c rfl
    rw [List.takeWhile_cons_of_neg (by rw [other]; decide), List.append_nil]

/-- Places count from the last bit, which is the lowest. -/
theorem testBit_foldl_bits (bits : List Bool) (place : Nat) :
    (bits.foldl (fun (word : Nat) (bit : Bool) => 2 * word + bit.toNat) 0).testBit place =
      bits.reverse[place]?.getD false := by
  induction bits using List.reverseRecOn generalizing place with
  | nil => simp only [List.foldl_nil, Nat.zero_testBit, List.reverse_nil, List.getElem?_nil, Option.getD_none]
  | append_singleton bits bit ih =>
    rw [List.foldl_append, List.foldl_cons, List.foldl_nil, List.reverse_append, List.reverse_singleton,
      List.singleton_append]
    cases place with
    | zero =>
      have low : ∀ word : Nat, (2 * word + bit.toNat) % 2 = bit.toNat := by
        intro word
        have small := bit.toNat_lt
        omega
      rw [Nat.testBit_zero, low, List.getElem?_cons_zero, Option.getD_some]
      cases bit <;> rfl
    | succ place =>
      have half : ∀ word : Nat, (2 * word + bit.toNat) / 2 = word := by
        intro word
        have small := bit.toNat_lt
        omega
      rw [Nat.testBit_succ, half, ih, List.getElem?_cons_succ]

end OneBit
