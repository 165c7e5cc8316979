import Mathlib.Algebra.BigOperators.Group.List.Basic
import Mathlib.Algebra.GroupWithZero.Nat
import Mathlib.Data.List.Induction
import OneBit.Usage

namespace OneBit

def Usage.ofOpcodes (opcodes : List Opcode) : Usage := opcodes.foldl .record {}

theorem Usage.ofOpcodes_concat (opcodes : List Opcode) (o : Opcode) :
    Usage.ofOpcodes (opcodes ++ [o]) = (Usage.ofOpcodes opcodes).record o := by
  rw [Usage.ofOpcodes, List.foldl_append]
  rfl

theorem Usage.count_ofOpcodes (opcodes : List Opcode) (o : Opcode) :
    (Usage.ofOpcodes opcodes).count o = opcodes.count o := by
  induction opcodes using List.reverseRecOn with
  | nil => exact Usage.count_empty o
  | append_singleton opcodes recorded ih =>
    rw [Usage.ofOpcodes_concat, Usage.count_record, ih, List.count_append, List.count_singleton]
    simp only [beq_iff_eq]

theorem Usage.total_ofOpcodes (opcodes : List Opcode) : (Usage.ofOpcodes opcodes).total = opcodes.length := by
  induction opcodes using List.reverseRecOn with
  | nil => rfl
  | append_singleton opcodes recorded ih =>
    rw [Usage.ofOpcodes_concat, Usage.total_record, ih, List.length_append, List.length_singleton]

theorem Usage.sum_count_record (u : Usage) (recorded : Opcode) :
    (Opcode.all.toList.map (u.record recorded).count).sum = (Opcode.all.toList.map u.count).sum + 1 := by
  have once : (Opcode.all.toList.map fun o => if recorded = o then 1 else 0).sum = 1 := by
    cases recorded <;> rfl
  have counts : (u.record recorded).count = fun o => u.count o + if recorded = o then 1 else 0 :=
    funext (u.count_record recorded)
  rw [counts, List.sum_map_add, once]

theorem Usage.sum_count_ofOpcodes (opcodes : List Opcode) :
    (Opcode.all.toList.map (Usage.ofOpcodes opcodes).count).sum = opcodes.length := by
  induction opcodes using List.reverseRecOn with
  | nil => rfl
  | append_singleton opcodes recorded ih =>
    rw [Usage.ofOpcodes_concat, Usage.sum_count_record, ih, List.length_append, List.length_singleton]

theorem Usage.eq_of_counts {u v : Usage} (counts : ∀ o, u.count o = v.count o) (total : u.total = v.total) : u = v := by
  obtain ⟨counted, all⟩ := u
  obtain ⟨counted', all'⟩ := v
  have same : counted = counted' := by
    ext i inside
    have count := counts (.ofNibble ⟨i, inside⟩)
    simp only [Usage.count, Opcode.value_ofNibble] at count
    exact count
  have total : all = all' := total
  rw [same, total]

/-- The order in which opcodes are recorded does not matter. -/
theorem Usage.ofOpcodes_perm {opcodes others : List Opcode} (permuted : opcodes.Perm others) :
    Usage.ofOpcodes opcodes = Usage.ofOpcodes others := by
  apply Usage.eq_of_counts
  · intro o
    rw [Usage.count_ofOpcodes, Usage.count_ofOpcodes, permuted.count_eq]
  · rw [Usage.total_ofOpcodes, Usage.total_ofOpcodes, permuted.length_eq]

end OneBit
