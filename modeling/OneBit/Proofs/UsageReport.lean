import OneBit.Proofs.NumeralReading
import OneBit.Proofs.SourceRoundTrip
import OneBit.Proofs.UsageCounts
import OneBit.Proofs.WholeLines

namespace OneBit

/-- The first two words of a row are a name and a count. -/
def Text.States (row name : Text) (count : Nat) : Prop :=
  row.words[0]? = some name ∧ row.words[1]? = some (decimal count)

/-- The number that is read as the second word of a row. -/
def Text.statedCount (row : Text) : Nat := Nat.ofDigitChars 10 (row.words[1]?.getD []) 0

/-- A text reports on some opcodes. It has a heading, sixteen rows for the opcodes in their order and a last row for all
of them, each ended by a line feed, and the counts in the rows add up to the last one. -/
structure ReportsUsage (text : Text) (opcodes : List Opcode) (rows : List Text) (last : Text) : Prop where
  lines : text = ("Opcode usage:".toList :: rows ++ [last]).flatMap (· ++ ['\n'])
  feedless : ∀ line ∈ "Opcode usage:".toList :: rows ++ [last], '\n' ∉ line
  length : rows.length = 16
  counts : ∀ o : Opcode, ∃ row, rows[o.value.val]? = some row ∧ row.States o.mnemonic (opcodes.count o)
  total : last.States "Total".toList opcodes.length
  sum : (rows.map Text.statedCount).sum = last.statedCount

theorem Text.States.statedCount {row name : Text} {count : Nat} (states : row.States name count) :
    row.statedCount = count := by
  rw [Text.statedCount, states.2, Option.getD_some, ofDigitChars_decimal]

theorem Text.isGap_spaces (width : Nat) : Text.IsGap (List.replicate width ' ') := by
  intro c member
  rw [List.eq_of_mem_replicate member]
  decide

theorem decimal_isToken (n : Nat) : (decimal n).IsToken := by
  refine ⟨Nat.toDigits_ne_nil, fun c member => ⟨?_, ?_⟩⟩
  · rw [Bool.eq_false_iff]
    intro blank
    have digit := isDigit_of_mem_decimal member
    rw [isDigit_of_isBlank blank] at digit
    cases digit
  · rintro rfl
    exact absurd (isDigit_of_mem_decimal member) (by decide)

/-- A name narrower than its column is parted from the count behind it, however wide the count is. -/
theorem Text.states_columns {name rest : Text} (token : name.IsToken) (narrow : name.length < 6) (count : Nat)
    (bounds : ∀ c ∈ rest.head?, isBlank c = true) :
    Text.States (' ' :: ' ' :: name.rightpad 6 ' ' ++ (decimal count).leftpad 6 ' ' ++ rest) name count := by
  let columns := List.replicate (6 - name.length) ' ' ++
    (List.replicate (6 - (decimal count).length) ' ' ++ (decimal count ++ rest))
  have shape : ' ' :: ' ' :: name.rightpad 6 ' ' ++ (decimal count).leftpad 6 ' ' ++ rest =
      List.replicate 2 ' ' ++ (name ++ columns) := by
    simp only [columns, List.rightpad, List.leftpad, List.append_assoc, List.cons_append]
    rfl
  -- The count may fill its column, but the name does not, so there is a space between the two.
  have parted : ∀ c ∈ columns.head?, isBlank c = true := by
    intro c first
    obtain ⟨width, wide⟩ : ∃ width, 6 - name.length = width + 1 := ⟨5 - name.length, by omega⟩
    simp only [columns, wide, List.replicate_succ, List.cons_append, List.head?_cons, Option.mem_some_iff] at first
    rw [← first]
    decide
  have words : Text.words (List.replicate 2 ' ' ++ (name ++ columns)) = name :: decimal count :: rest.words := by
    rw [Text.words_gap (Text.isGap_spaces 2), Text.words_token token parted, Text.words_gap (Text.isGap_spaces _),
      Text.words_gap (Text.isGap_spaces _), Text.words_token (decimal_isToken count) bounds]
  rw [Text.States, shape, words]
  exact ⟨rfl, rfl⟩

theorem Opcode.mnemonic_narrow (o : Opcode) : o.mnemonic.length < 6 := by
  cases o <;> decide

theorem Usage.row_states (u : Usage) (o : Opcode) : (u.row o).States o.mnemonic (u.count o) := by
  have bounds : ∀ c ∈ (' ' :: (fixedPlaces 2 (u.share o)).leftpad 7 ' ' ++ ['%']).head?, isBlank c = true := by
    intro c first
    cases first
    decide
  have states := Text.states_columns o.mnemonic_printed.1 o.mnemonic_narrow (u.count o) bounds
  rwa [← List.append_assoc] at states

theorem Usage.totalRow_states (u : Usage) : u.totalRow.States "Total".toList u.total := by
  have token : Text.IsToken "Total".toList := by decide
  have bounds : ∀ c ∈ List.head? [], isBlank c = true := fun c first => absurd first (Option.not_mem_none c)
  have states := Text.states_columns token (by decide) u.total bounds
  rwa [List.append_nil] at states

theorem feedless_padding (width : Nat) {c : Char} (other : c ≠ '\n') : '\n' ∉ List.replicate width c := by
  intro inside
  exact other (List.eq_of_mem_replicate inside).symm

theorem decimalFraction_feedless (places n d : Nat) : '\n' ∉ decimalFraction places n d := by
  unfold decimalFraction
  dsimp only
  generalize rounded : decimal (nearestQuotient (n * Nat.pow 10 places) d) = numeral
  have clean : '\n' ∉ numeral := by
    rw [← rounded]
    exact decimal_feedless _
  have digits : '\n' ∉ numeral.leftpad (places + 1) '0' :=
    List.not_mem_append (feedless_padding _ (by decide)) clean
  split
  · exact digits
  · refine List.not_mem_append (fun whole => digits (List.mem_of_mem_take whole)) ?_
    refine List.not_mem_cons_of_ne_of_not_mem (by decide) ?_
    exact fun fraction => digits (List.mem_of_mem_drop fraction)

/-- A number takes one line, whatever double it is. -/
theorem fixedPlaces_feedless (places : Nat) (x : Float) : '\n' ∉ fixedPlaces places x := by
  have sign : ∀ negative : Prop, [Decidable negative] → '\n' ∉ if negative then [] else ['-'] := by
    intro negative _
    split
    · decide
    · decide
  unfold fixedPlaces
  dsimp only
  split
  · split
    · exact List.not_mem_append (sign _) (by decide)
    · decide
  · exact List.not_mem_append (sign _) (decimalFraction_feedless _ _ _)

theorem Usage.row_feedless (u : Usage) (o : Opcode) : '\n' ∉ u.row o := by
  have spaces : ∀ width, '\n' ∉ List.replicate width ' ' := fun width => feedless_padding width (by decide)
  have name : '\n' ∉ o.mnemonic.rightpad 6 ' ' := List.not_mem_append o.mnemonic_printed.1.feedless (spaces _)
  have count : '\n' ∉ (decimal (u.count o)).leftpad 6 ' ' := List.not_mem_append (spaces _) (decimal_feedless _)
  have share : '\n' ∉ (fixedPlaces 2 (u.share o)).leftpad 7 ' ' :=
    List.not_mem_append (spaces _) (fixedPlaces_feedless 2 _)
  have counted := List.not_mem_append (List.not_mem_append (spaces 2) name) count
  exact List.not_mem_append (List.not_mem_append counted (List.not_mem_append (spaces 1) share)) (by decide)

theorem Usage.totalRow_feedless (u : Usage) : '\n' ∉ u.totalRow :=
  List.not_mem_append (by decide) (List.not_mem_append (feedless_padding _ (by decide)) (decimal_feedless u.total))

theorem Usage.report?_ofOpcodes_eq_none_iff (opcodes : List Opcode) :
    (Usage.ofOpcodes opcodes).report? = none ↔ opcodes = [] := by
  rw [Usage.report?, Usage.total_ofOpcodes, ← List.length_eq_zero_iff]
  split
  · rename_i empty
    exact iff_of_true rfl empty
  · rename_i filled
    exact iff_of_false (Option.some_ne_none _) filled

theorem Usage.exists_report {opcodes : List Opcode} (filled : opcodes ≠ []) : ∃ text rows last,
    (Usage.ofOpcodes opcodes).report? = some text ∧ ReportsUsage text opcodes rows last := by
  let u := Usage.ofOpcodes opcodes
  have count : ∀ o, u.count o = opcodes.count o := Usage.count_ofOpcodes opcodes
  have total : u.total = opcodes.length := Usage.total_ofOpcodes opcodes
  have recorded : u.total ≠ 0 := by rwa [total, ne_eq, List.length_eq_zero_iff]
  refine ⟨_, Opcode.all.toList.map u.row, u.totalRow, if_neg recorded, ?_⟩
  constructor
  case lines => rfl
  case feedless =>
    refine List.forall_mem_cons.mpr ⟨by decide, fun line member => ?_⟩
    rcases List.mem_append.mp member with row | last
    · obtain ⟨o, -, rfl⟩ := List.mem_map.mp row
      exact u.row_feedless o
    · rw [List.mem_singleton.mp last]
      exact u.totalRow_feedless
  case length => rw [List.length_map, Vector.length_toList]
  case counts =>
    intro o
    have place : Opcode.all.toList[o.value.val]? = some o := by cases o <;> rfl
    refine ⟨u.row o, ?_, count o ▸ u.row_states o⟩
    rw [List.getElem?_map, place, Option.map_some]
  case total => exact total ▸ u.totalRow_states
  case sum =>
    have stated : Text.statedCount ∘ u.row = u.count := funext fun o => (u.row_states o).statedCount
    rw [List.map_map, stated, u.totalRow_states.statedCount, total]
    exact Usage.sum_count_ofOpcodes opcodes

/-- A report is read in one way, so it fixes the opcodes but for their order. -/
theorem ReportsUsage.perm {text : Text} {opcodes others : List Opcode} {rows rows' : List Text} {last last' : Text}
    (reports : ReportsUsage text opcodes rows last) (reports' : ReportsUsage text others rows' last') :
    opcodes.Perm others := by
  have lines := Text.splitOn_joined reports.feedless
  have lines' := Text.splitOn_joined reports'.feedless
  rw [← reports.lines] at lines
  rw [← reports'.lines, lines, List.append_left_inj, List.cons_append, List.cons_append, List.cons_inj_right] at lines'
  obtain ⟨rfl, -⟩ := List.append_inj' lines' rfl
  refine List.perm_iff_count.mpr fun o => ?_
  obtain ⟨row, place, states⟩ := reports.counts o
  obtain ⟨row', place', states'⟩ := reports'.counts o
  obtain rfl := Option.some.inj (place.symm.trans place')
  rw [← states.statedCount, states'.statedCount]

/-- Only no opcodes have no report. Any others have one, of eighteen lines with a name and a count in each but the first,
and whoever has the same report has the same usage. -/
theorem reports_keep_every_count (opcodes : List Opcode) :
    ((Usage.ofOpcodes opcodes).report? = none ↔ opcodes = []) ∧
    (opcodes ≠ [] → ∃ text rows last,
      (Usage.ofOpcodes opcodes).report? = some text ∧ ReportsUsage text opcodes rows last) ∧
    ∀ others, (Usage.ofOpcodes others).report? = (Usage.ofOpcodes opcodes).report? →
      Usage.ofOpcodes others = Usage.ofOpcodes opcodes := by
  refine ⟨Usage.report?_ofOpcodes_eq_none_iff opcodes, Usage.exists_report, fun others same => ?_⟩
  have empty : others = [] ↔ opcodes = [] := by
    rw [← Usage.report?_ofOpcodes_eq_none_iff, same, Usage.report?_ofOpcodes_eq_none_iff]
  by_cases nothing : opcodes = []
  · rw [nothing, empty.mpr nothing]
  · obtain ⟨text, rows, last, report, reports⟩ := Usage.exists_report nothing
    obtain ⟨text', rows', last', report', reports'⟩ := Usage.exists_report (mt empty.mp nothing)
    rw [report, report'] at same
    obtain rfl := Option.some.inj same
    exact Usage.ofOpcodes_perm (reports'.perm reports)

/-- Counts of seven digits in columns of six, beside the longest name and in the last row, and the same opcodes in
another order. -/
theorem wide_counts_are_reported :
    let opcodes := List.replicate 1234567 Opcode.stoc ++ [.nopf]
    let others := Opcode.nopf :: List.replicate 1234567 Opcode.stoc
    opcodes ≠ [] ∧
      (∃ text rows last, (Usage.ofOpcodes opcodes).report? = some text ∧ ReportsUsage text opcodes rows last ∧
        (∃ row, rows[9]? = some row ∧ row.States "STOC".toList 1234567) ∧ last.States "Total".toList 1234568) ∧
      (Usage.ofOpcodes others).report? = (Usage.ofOpcodes opcodes).report? ∧
      Usage.ofOpcodes others = Usage.ofOpcodes opcodes := by
  intro opcodes others
  have filled : opcodes ≠ [] := List.append_ne_nil_of_right_ne_nil _ (List.cons_ne_nil _ _)
  have stores : opcodes.count .stoc = 1234567 := by
    rw [List.count_append, List.count_replicate_self, List.count_singleton]
    rfl
  have length : opcodes.length = 1234568 := by
    rw [List.length_append, List.length_replicate, List.length_singleton]
  have reordered : (Usage.ofOpcodes others).report? = (Usage.ofOpcodes opcodes).report? := by
    have permuted : others.Perm opcodes := (List.perm_append_singleton _ _).symm
    rw [Usage.ofOpcodes_perm permuted]
  obtain ⟨-, reported, unique⟩ := reports_keep_every_count opcodes
  obtain ⟨text, rows, last, report, reports⟩ := reported filled
  have row := reports.counts .stoc
  have total := reports.total
  rw [stores] at row
  rw [length] at total
  exact ⟨filled, ⟨text, rows, last, report, reports, row, total⟩, reordered, unique others reordered⟩

end OneBit
