import Mathlib.Data.Nat.Digits.Defs
import OneBit.Proofs.MachineStep

namespace OneBit

/-- An instruction with the bit to which it is applied. -/
structure Application where
  instruction : Instruction
  data : Bool

def Machine.applyAll (m : Machine) (applied : List Application) : Machine :=
  applied.foldl (fun m a => m.apply a.instruction a.data) m

/-- The result register behind each instruction with an opcode. -/
def Machine.resultsOf (op : Opcode) : Machine → List Application → List Bool
  | _, [] => []
  | m, a :: applied =>
    let next := m.apply a.instruction a.data
    if a.instruction.opcode = op then next.result :: next.resultsOf op applied else next.resultsOf op applied

/-- The stores, and the instructions that do nothing but for the tape. -/
def Opcode.idle : List Opcode := [.nop0, .ioc, .nopf, .sto, .stoc]

def Idle (applied : List Application) : Prop := ∀ a ∈ applied, a.instruction.opcode ∈ Opcode.idle

/-- Each column of two bits is a load of the first and then an application of the opcode to the second. Idle
instructions may stand anywhere around the two, and either has any operand. -/
inductive Ripples (op : Opcode) : List (Bool × Bool) → List Application → Prop
  | last {after} : Idle after → Ripples op [] after
  | column {before between rest columns x y loaded used} : Idle before → Idle between → Ripples op columns rest →
      Ripples op ((x, y) :: columns)
        (before ++ ⟨⟨.ld, loaded⟩, x⟩ :: (between ++ ⟨⟨op, used⟩, y⟩ :: rest))

/-- The columns of two words of `n` bits, lowest first. -/
def wordColumns {n : Nat} (X Y : BitVec n) : List (Bool × Bool) :=
  (List.range n).map fun i => (X.getLsbD i, Y.getLsbD i)

/-- The number with the given bits, lowest first. -/
def wordOf (bits : List Bool) : Nat := Nat.ofDigits 2 (bits.map Bool.toNat)

theorem wordOf_cons (bit : Bool) (bits : List Bool) : wordOf (bit :: bits) = bit.toNat + 2 * wordOf bits :=
  Nat.ofDigits_cons

theorem wordOf_testBit (x n : Nat) : wordOf ((List.range n).map x.testBit) = x % 2 ^ n := by
  induction n generalizing x with
  | zero => rw [Nat.pow_zero, Nat.mod_one]; rfl
  | succ n ih =>
    have later : (List.range n).map (x.testBit ∘ Nat.succ) = (List.range n).map (x / 2).testBit := by
      simp only [Function.comp_def, Nat.testBit_succ]
    have first : (x.testBit 0).toNat = x % 2 := by rw [Nat.toNat_testBit, Nat.pow_zero, Nat.div_one]
    rw [List.range_succ_eq_map, List.map_cons, List.map_map, later, wordOf_cons, ih, first, Nat.pow_succ', Nat.mod_mul]

theorem wordOf_getLsbD {n : Nat} (X : BitVec n) : wordOf ((List.range n).map X.getLsbD) = X.toNat := by
  have value := wordOf_testBit X.toNat n
  rwa [Nat.mod_eq_of_lt X.isLt] at value

theorem wordOf_not (bits : List Bool) : wordOf bits + wordOf (bits.map (!·)) + 1 = 2 ^ bits.length := by
  induction bits with
  | nil => rfl
  | cons bit bits ih =>
    have column : bit.toNat + (!bit).toNat = 1 := by cases bit <;> rfl
    rw [List.map_cons, wordOf_cons, wordOf_cons, List.length_cons, Nat.pow_succ']
    omega

theorem wordOf_lt (bits : List Bool) : wordOf bits < 2 ^ bits.length := by
  have complement := wordOf_not bits
  omega

theorem Machine.applyAll_append (m : Machine) (before after : List Application) :
    m.applyAll (before ++ after) = (m.applyAll before).applyAll after := List.foldl_append

theorem Machine.applyAll_cons (m : Machine) (a : Application) (applied : List Application) :
    m.applyAll (a :: applied) = (m.apply a.instruction a.data).applyAll applied := rfl

theorem Machine.resultsOf_cons (m : Machine) (op : Opcode) (a : Application) (applied : List Application) :
    m.resultsOf op (a :: applied) =
      (if a.instruction.opcode = op then [(m.apply a.instruction a.data).result] else []) ++
        (m.apply a.instruction a.data).resultsOf op applied := by
  rw [Machine.resultsOf]
  split
  · rfl
  · rfl

theorem Machine.resultsOf_append (m : Machine) (op : Opcode) (before after : List Application) :
    m.resultsOf op (before ++ after) = m.resultsOf op before ++ (m.applyAll before).resultsOf op after := by
  induction before generalizing m with
  | nil => rfl
  | cons a before ih =>
    rw [List.cons_append, Machine.resultsOf_cons, Machine.resultsOf_cons, ih, List.append_assoc, Machine.applyAll_cons]

/-- An idle instruction changes nothing that arithmetic reads. -/
theorem Machine.apply_idle (m : Machine) {i : Instruction} (idle : i.opcode ∈ Opcode.idle) (data : Bool) :
    ∃ scratch outputs, m.apply i data = { m with scratch := scratch, outputs := outputs } := by
  obtain ⟨opcode, operand⟩ := i
  simp only [Opcode.idle, List.mem_cons, List.not_mem_nil, or_false] at idle
  rcases idle with rfl | rfl | rfl | rfl | rfl
  · exact ⟨m.scratch, m.outputs, rfl⟩
  · exact ⟨m.scratch, m.outputs, rfl⟩
  · exact ⟨m.scratch, m.outputs, rfl⟩
  · exact m.store_eq operand m.result
  · exact m.store_eq operand (!m.result)

theorem Idle.applyAll_eq {applied : List Application} (idle : Idle applied) (m : Machine) :
    ∃ scratch outputs, m.applyAll applied = { m with scratch := scratch, outputs := outputs } := by
  induction applied generalizing m with
  | nil => exact ⟨m.scratch, m.outputs, rfl⟩
  | cons a applied ih =>
    obtain ⟨first, rest⟩ := List.forall_mem_cons.mp idle
    obtain ⟨scratch, outputs, step⟩ := m.apply_idle first a.data
    rw [Machine.applyAll_cons, step]
    exact ih rest _

theorem Idle.resultsOf_eq {applied : List Application} (idle : Idle applied) (m : Machine) {op : Opcode}
    (busy : op ∉ Opcode.idle) : m.resultsOf op applied = [] := by
  induction applied generalizing m with
  | nil => rfl
  | cons a applied ih =>
    obtain ⟨first, rest⟩ := List.forall_mem_cons.mp idle
    have other : a.instruction.opcode ≠ op := fun same => busy (same ▸ first)
    rw [Machine.resultsOf_cons, if_neg other, ih rest, List.nil_append]

/-- With inputs enabled, the opcode adds its bit to the result, changed as told. -/
structure Opcode.Adds (op : Opcode) (change : Bool → Bool) : Prop where
  apply_eq : ∀ (m : Machine) (operand : Operand) (data : Bool), m.inputEnable = true →
    m.apply ⟨op, operand⟩ data = m.addBit (change data)
  busy : op ∉ Opcode.idle
  notLoad : op ≠ .ld

theorem Opcode.add_adds : Opcode.Adds .add (fun bit => bit) where
  apply_eq m operand data enabled := by simp only [Machine.apply, enabled, Bool.and_true]
  busy := by decide
  notLoad := by decide

/-- Subtracting is adding the complement. -/
theorem Opcode.sub_adds : Opcode.Adds .sub (!·) where
  apply_eq m operand data enabled := by simp only [Machine.apply, enabled, Bool.and_true]
  busy := by decide
  notLoad := by decide

/-- One column: the bit loaded, the other bit and the carry make the next result and the next carry. -/
theorem Opcode.Adds.column {op : Opcode} {change : Bool → Bool} (adds : op.Adds change) {m : Machine}
    (enabled : m.inputEnable = true) {before between : List Application} (idle : Idle before) (idle' : Idle between)
    (x y : Bool) (loaded used : Operand) :
    ∃ next : Machine, next.inputEnable = true ∧
      next.result.toNat + 2 * next.carry.toNat = x.toNat + (change y).toNat + m.carry.toNat ∧
      ∀ rest, let applied := before ++ ⟨⟨.ld, loaded⟩, x⟩ :: (between ++ ⟨⟨op, used⟩, y⟩ :: rest)
        m.applyAll applied = next.applyAll rest ∧ m.resultsOf op applied = next.result :: next.resultsOf op rest := by
  obtain ⟨scratch, outputs, reached⟩ := idle.applyAll_eq m
  have load : (m.applyAll before).apply ⟨.ld, loaded⟩ x =
      { m with scratch := scratch, outputs := outputs, result := x } := by
    rw [reached]
    simp only [Machine.apply, enabled, Bool.and_true]
  obtain ⟨scratch', outputs', between_eq⟩ :=
    idle'.applyAll_eq { m with scratch := scratch, outputs := outputs, result := x }
  let ready : Machine := { m with scratch := scratch', outputs := outputs', result := x }
  have use : ready.apply ⟨op, used⟩ y = ready.addBit (change y) := adds.apply_eq ready used y enabled
  refine ⟨ready.addBit (change y), enabled, ready.addBit_sum (change y), fun rest => ⟨?_, ?_⟩⟩
  · rw [Machine.applyAll_append, Machine.applyAll_cons, load, Machine.applyAll_append, between_eq, Machine.applyAll_cons,
      use]
  · rw [Machine.resultsOf_append, idle.resultsOf_eq m adds.busy, List.nil_append, Machine.resultsOf_cons,
      if_neg adds.notLoad.symm, List.nil_append, load, Machine.resultsOf_append, idle'.resultsOf_eq _ adds.busy,
      List.nil_append, between_eq, Machine.resultsOf_cons, if_pos rfl, use, List.singleton_append]

/-- All columns: the results are a word, and the last carry is its bit above. -/
theorem Ripples.sum {op : Opcode} {change : Bool → Bool} (adds : op.Adds change) {columns : List (Bool × Bool)}
    {applied : List Application} (ripples : Ripples op columns applied) {m : Machine} (enabled : m.inputEnable = true) :
    (m.resultsOf op applied).length = columns.length ∧
    wordOf (m.resultsOf op applied) + 2 ^ columns.length * (m.applyAll applied).carry.toNat =
      wordOf (columns.map (·.1)) + wordOf (columns.map fun column => change column.2) + m.carry.toNat := by
  -- Only the carry goes from one column to the next, so the columns behind are a word that starts on it.
  induction ripples generalizing m with
  | last idle =>
    obtain ⟨scratch, outputs, reached⟩ := idle.applyAll_eq m
    rw [idle.resultsOf_eq m adds.busy, reached]
    refine ⟨rfl, ?_⟩
    rw [List.length_nil, Nat.pow_zero, Nat.one_mul]
    rfl
  | @column before between rest columns x y loaded used idle idle' _ ih =>
    obtain ⟨next, enabled', bit, step⟩ := adds.column enabled idle idle' x y loaded used
    obtain ⟨reached, results⟩ := step rest
    obtain ⟨length, sum⟩ := ih enabled'
    rw [reached, results, List.length_cons, List.length_cons, length, wordOf_cons, List.map_cons, List.map_cons,
      wordOf_cons, wordOf_cons, Nat.pow_succ', Nat.mul_assoc]
    refine ⟨rfl, ?_⟩
    dsimp only
    omega

theorem wordColumns_left {n : Nat} (X Y : BitVec n) : wordOf ((wordColumns X Y).map (·.1)) = X.toNat := by
  rw [wordColumns, List.map_map]
  exact wordOf_getLsbD X

theorem wordColumns_right {n : Nat} (X Y : BitVec n) : wordOf ((wordColumns X Y).map (·.2)) = Y.toNat := by
  rw [wordColumns, List.map_map]
  exact wordOf_getLsbD Y

theorem wordColumns_right_not {n : Nat} (X Y : BitVec n) :
    wordOf ((wordColumns X Y).map fun column => !column.2) = 2 ^ n - 1 - Y.toNat := by
  have complement := wordOf_not ((List.range n).map Y.getLsbD)
  rw [List.map_map, wordOf_getLsbD, List.length_map, List.length_range] at complement
  rw [wordColumns, List.map_map]
  change wordOf ((List.range n).map ((!·) ∘ Y.getLsbD)) = _
  omega

theorem length_wordColumns {n : Nat} (X Y : BitVec n) : (wordColumns X Y).length = n := by
  rw [wordColumns, List.length_map, List.length_range]

/-- A number of `n` bits and a carry above it are what is left of a sum and what was carried out of it. -/
theorem eq_mod_of_carry {n word sum : Nat} {carry : Bool} (small : word < 2 ^ n)
    (total : word + 2 ^ n * carry.toNat = sum) : word = sum % 2 ^ n := by
  rw [← total, Nat.add_mul_mod_self_left, Nat.mod_eq_of_lt small]

/-- On a set carry, the first word and the complement of the second make the difference. -/
theorem eq_sub_of_set_carry {n word : Nat} {X Y : BitVec n} {carry : Bool} (small : word < 2 ^ n)
    (total : word + 2 ^ n * carry.toNat = X.toNat + (2 ^ n - 1 - Y.toNat) + 1) :
    word = (X - Y).toNat ∧ (carry = true ↔ Y.toNat ≤ X.toNat) := by
  have below := X.isLt
  have below' := Y.isLt
  constructor
  · rw [eq_mod_of_carry small total, BitVec.toNat_sub]
    congr 1
    omega
  · cases carry with
    | false =>
      rw [Bool.toNat_false, Nat.mul_zero] at total
      exact iff_of_false Bool.false_ne_true (by omega)
    | true =>
      rw [Bool.toNat_true, Nat.mul_one] at total
      exact iff_of_true rfl (by omega)

/-- On a clear carry they are less than that by one. -/
theorem eq_sub_of_clear_carry {n word : Nat} {X Y : BitVec n} {carry : Bool} (small : word < 2 ^ n)
    (total : word + 2 ^ n * carry.toNat = X.toNat + (2 ^ n - 1 - Y.toNat)) : word = (X - Y - 1).toNat := by
  have lessOne : X - Y - 1 = X + ~~~Y := by
    rw [BitVec.sub_eq_add_neg X Y, BitVec.neg_eq_not_add Y, ← BitVec.add_assoc]
    exact BitVec.add_sub_cancel _ _
  rw [eq_mod_of_carry small total, lessOne, BitVec.toNat_add, BitVec.toNat_not]

/-- The results of rippled additions are the sum of the two words and the carry, with the last carry as its bit above. Of
rippled subtractions they are the first word, the complement of the second and the carry: on a set carry the difference,
which sets the last carry unless it borrows, and on a clear one the difference less one. -/
theorem rippled_words_add_and_subtract {n : Nat} (X Y : BitVec n) (m : Machine) (enabled : m.inputEnable = true)
    (applied : List Application) :
    let carry := (m.applyAll applied).carry
    (Ripples .add (wordColumns X Y) applied →
      let sums := m.resultsOf .add applied
      sums.length = n ∧ wordOf sums + 2 ^ n * carry.toNat = X.toNat + Y.toNat + m.carry.toNat) ∧
    (Ripples .sub (wordColumns X Y) applied →
      let sums := m.resultsOf .sub applied
      sums.length = n ∧ wordOf sums + 2 ^ n * carry.toNat = X.toNat + (2 ^ n - 1 - Y.toNat) + m.carry.toNat ∧
      (m.carry = true → wordOf sums = (X - Y).toNat ∧ (carry = true ↔ Y.toNat ≤ X.toNat)) ∧
      (m.carry = false → wordOf sums = (X - Y - 1).toNat)) := by
  intro carry
  refine ⟨fun ripples => ?_, fun ripples => ?_⟩
  · obtain ⟨length, sum⟩ := ripples.sum Opcode.add_adds enabled
    rw [length_wordColumns] at length sum
    rw [wordColumns_left, wordColumns_right] at sum
    exact ⟨length, sum⟩
  · obtain ⟨length, sum⟩ := ripples.sum Opcode.sub_adds enabled
    rw [length_wordColumns] at length sum
    rw [wordColumns_left, wordColumns_right_not] at sum
    have small := wordOf_lt (m.resultsOf .sub applied)
    rw [length] at small
    refine ⟨length, sum, fun set => ?_, fun clear => ?_⟩
    · rw [set, Bool.toNat_true] at sum
      exact eq_sub_of_set_carry small sum
    · rw [clear, Bool.toNat_false, Nat.add_zero] at sum
      exact eq_sub_of_clear_carry small sum

/-- Two and three with a set carry, and instructions in between that store and do nothing: the sum is six, the difference
borrows, and without the carry it is less by one. -/
theorem rippled_two_bit_words :
    let m : Machine := { inputEnable := true, outputEnable := true, carry := true }
    let applied : Opcode → List Application := fun op =>
      [⟨⟨.ld, .scratch 1⟩, false⟩, ⟨⟨.stoc, .channel 0⟩, true⟩, ⟨⟨op, .channel 3⟩, true⟩, ⟨⟨.sto, .scratch 1⟩, false⟩,
        ⟨⟨.nopf, .scratch 0⟩, true⟩, ⟨⟨.ld, .channel 0⟩, true⟩, ⟨⟨op, .scratch 7⟩, true⟩, ⟨⟨.ioc, .scratch 0⟩, false⟩]
    (∀ op, Ripples op (wordColumns 2#2 3#2) (applied op)) ∧
      wordOf (m.resultsOf .add (applied .add)) + 2 ^ 2 * (m.applyAll (applied .add)).carry.toNat = 2 + 3 + 1 ∧
      wordOf (m.resultsOf .sub (applied .sub)) = (2#2 - 3#2).toNat ∧ (m.applyAll (applied .sub)).carry = false ∧
      wordOf ({ m with carry := false }.resultsOf .sub (applied .sub)) = (2#2 - 3#2 - 1).toNat := by
  intro m applied
  have ripples : ∀ op, Ripples op (wordColumns 2#2 3#2) (applied op) := by
    intro op
    have none : Idle [] := fun _ member => absurd member List.not_mem_nil
    have store : Idle [⟨⟨.stoc, .channel 0⟩, true⟩] := by unfold Idle; decide
    have stores : Idle [⟨⟨.sto, .scratch 1⟩, false⟩, ⟨⟨.nopf, .scratch 0⟩, true⟩] := by unfold Idle; decide
    have after : Idle [⟨⟨.ioc, .scratch 0⟩, false⟩] := by unfold Idle; decide
    exact .column none store (.column stores none (.last after))
  obtain ⟨added, -⟩ := rippled_words_add_and_subtract 2#2 3#2 m rfl (applied .add)
  obtain ⟨-, subtracted⟩ := rippled_words_add_and_subtract 2#2 3#2 m rfl (applied .sub)
  obtain ⟨-, less⟩ := rippled_words_add_and_subtract 2#2 3#2 { m with carry := false } rfl (applied .sub)
  obtain ⟨-, -, onSet, -⟩ := subtracted (ripples .sub)
  obtain ⟨-, -, -, onClear⟩ := less (ripples .sub)
  obtain ⟨difference, unborrowed⟩ := onSet rfl
  refine ⟨ripples, (added (ripples .add)).2, difference, ?_, onClear rfl⟩
  exact Bool.eq_false_iff.mpr fun last => absurd (unborrowed.mp last) (by decide)

end OneBit
