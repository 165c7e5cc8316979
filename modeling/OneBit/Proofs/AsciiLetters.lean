import OneBit.Text.UpperCase

namespace OneBit

/-- The same character, or the same letter of ASCII in either case. -/
def SameLetter (c d : Char) : Prop := d = c ∨ d = c.toUpper ∨ d = c.toLower

theorem toNat_toUpper (c : Char) :
    c.toUpper.toNat = if 97 ≤ c.toNat ∧ c.toNat ≤ 122 then c.toNat - 32 else c.toNat := by
  have lower : ('a'.val ≤ c.val ∧ c.val ≤ 'z'.val) ↔ 97 ≤ c.toNat ∧ c.toNat ≤ 122 := Iff.rfl
  unfold Char.toUpper
  split
  · rename_i letter
    have bounds := lower.mp letter
    -- Capitals come first, so the distance to them is negative and wraps around.
    have distance : ('A'.val - 'a'.val).toNat = 4294967264 := rfl
    have code : c.val.toNat = c.toNat := rfl
    change (c.val + ('A'.val - 'a'.val)).toNat = _
    rw [if_pos bounds, UInt32.toNat_add]
    omega
  · rename_i other
    rw [if_neg fun letter => other (lower.mpr letter)]

theorem toNat_toLower (c : Char) :
    c.toLower.toNat = if 65 ≤ c.toNat ∧ c.toNat ≤ 90 then c.toNat + 32 else c.toNat := by
  have upper : (c.val ≥ 'A'.val ∧ c.val ≤ 'Z'.val) ↔ 65 ≤ c.toNat ∧ c.toNat ≤ 90 := Iff.rfl
  unfold Char.toLower
  split
  · rename_i letter
    have bounds := upper.mp letter
    have distance : ('a'.val - 'A'.val).toNat = 32 := rfl
    have code : c.val.toNat = c.toNat := rfl
    change (c.val + ('a'.val - 'A'.val)).toNat = _
    rw [if_pos bounds, UInt32.toNat_add]
    omega
  · rename_i other
    rw [if_neg fun letter => other (upper.mpr letter)]

theorem sameLetter_iff (c d : Char) : SameLetter c d ↔ c.toUpper = d.toUpper := by
  simp only [SameLetter, ← Char.toNat_inj, toNat_toUpper, toNat_toLower]
  split <;> split <;> split <;> omega

/-- A character either has no case or is one of the first 128. -/
theorem toUpper_eq_or_ascii (c : Char) : c.toUpper = c ∨ ∃ n : Fin 128, c = Char.ofNat n := by
  by_cases small : c.toNat < 128
  · exact Or.inr ⟨⟨c.toNat, small⟩, (Char.ofNat_toNat c).symm⟩
  · left
    rw [← Char.toNat_inj, toNat_toUpper, if_neg (by omega)]

theorem isBlank_toUpper (c : Char) : isBlank c.toUpper = isBlank c := by
  obtain same | ⟨n, rfl⟩ := toUpper_eq_or_ascii c
  · rw [same]
  · revert n
    decide

theorem upperChar_toUpper (c : Char) : upperChar c.toUpper = upperChar c := by
  obtain same | ⟨n, rfl⟩ := toUpper_eq_or_ascii c
  · rw [same]
  · revert n
    decide

/-- A mark that is no letter comes from no other character. -/
theorem toUpper_eq_iff {mark : Char} (upper : mark.toUpper = mark) (lower : mark.toLower = mark) (c : Char) :
    c.toUpper = mark ↔ c = mark := by
  have same : SameLetter mark c ↔ mark.toUpper = c.toUpper := sameLetter_iff mark c
  rw [SameLetter, upper, lower, or_self, or_self] at same
  rw [eq_comm, ← same]

end OneBit
