import OneBit.Text.Numeral
import OneBit.Opcode

namespace OneBit

structure Usage where
  counts : Vector Nat 16 := .replicate 16 0
  total : Nat := 0
  deriving DecidableEq, Repr

def Usage.count (u : Usage) (o : Opcode) : Nat := u.counts[o.value]

def Usage.record (u : Usage) (o : Opcode) : Usage where
  counts := u.counts.set o.value (u.counts[o.value] + 1)
  total := u.total + 1

/-- The share of an opcode in percent, in double precision: the product comes before the quotient. -/
def Usage.share (u : Usage) (o : Opcode) : Float :=
  Float.ofNat (u.count o) * 100 / Float.ofNat u.total

/-- Nothing has a share of no instructions. -/
def Usage.percentage? (u : Usage) (o : Opcode) : Option Float :=
  if u.total = 0 then none else some (u.share o)

/-- One row of the report: the name and the count in columns of six, and the share in a column of
seven. A count that outgrows its column pushes the share to the right. -/
def Usage.row (u : Usage) (o : Opcode) : Text :=
  ' ' :: ' ' :: o.mnemonic.rightpad 6 ' ' ++ (decimal (u.count o)).leftpad 6 ' ' ++
    ' ' :: (fixedPlaces 2 (u.share o)).leftpad 7 ' ' ++ ['%']

def Usage.totalRow (u : Usage) : Text :=
  ' ' :: ' ' :: "Total".toList.rightpad 6 ' ' ++ (decimal u.total).leftpad 6 ' '

/-- A heading, a row for every opcode and the total, each ended by a line feed. There is no report on
no instructions. -/
def Usage.report? (u : Usage) : Option Text :=
  if u.total = 0 then none
  else
    let rows := "Opcode usage:".toList :: Opcode.all.toList.map u.row ++ [u.totalRow]
    some (rows.flatMap (· ++ ['\n']))

@[simp]
theorem Usage.count_empty (o : Opcode) : ({} : Usage).count o = 0 := by
  simp [Usage.count]

theorem Usage.count_record (u : Usage) (recorded o : Opcode) :
    (u.record recorded).count o = u.count o + if recorded = o then 1 else 0 := by
  by_cases same : recorded = o
  · subst same
    simp [Usage.count, Usage.record]
  · have apart : recorded.value.val ≠ o.value.val := by
      intro equal
      have value := congrArg Opcode.ofNibble (Fin.ext equal)
      simp only [Opcode.ofNibble_value] at value
      exact same value
    simp [Usage.count, Usage.record, same, apart]

@[simp]
theorem Usage.total_record (u : Usage) (o : Opcode) : (u.record o).total = u.total + 1 := rfl

end OneBit
