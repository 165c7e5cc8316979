import OneBit.Proofs.SessionVerdicts

namespace OneBit

def Verdict.mapError (change : SourceError → SourceError) : Verdict → Verdict
  | .skip => .skip
  | .emit i => .emit i
  | .reject e => .reject (change e)

/-- The verdict on a line comes from its trimmed text, and only errors tell its number. -/
theorem SourceLine.verdict_of_text {l other : SourceLine} {change : SourceError → SourceError}
    (same : other.text = l.text)
    (renumbered : ∀ fault token, change ⟨fault, l.number, l.text, token⟩ = ⟨fault, other.number, l.text, token⟩) :
    other.verdict = l.verdict.mapError change := by
  rw [SourceLine.verdict, SourceLine.verdict, same]
  cases Statement.ofText? l.text with
  | none => rfl
  | some statement =>
    dsimp only
    cases statement.instruction? with
    | ok i => rfl
    | error fault => exact congrArg Verdict.reject (renumbered fault.1 fault.2).symm

/-- A change of lines, of the errors in their verdicts and of their entries in a listing, where every address moves on
by one distance. -/
structure LineChange where
  line : SourceLine → SourceLine
  error : SourceError → SourceError
  entry : ListingLine → ListingLine
  distance : Nat
  verdict_line : ∀ l, (line l).verdict = l.verdict.mapError error
  entry_skipped : ∀ l, entry (.skipped l.number l.raw) = .skipped (line l).number (line l).raw
  entry_emitted : ∀ l address byte, entry (.emitted address byte l.number l.text) =
    .emitted (address + distance) byte (line l).number (line l).text

theorem instructionsOf_map_of {line : SourceLine → SourceLine} {error : SourceError → SourceError}
    (verdict_line : ∀ l, (line l).verdict = l.verdict.mapError error) (lines : List SourceLine) :
    instructionsOf (lines.map line) = instructionsOf lines := by
  rw [instructionsOf, List.filterMap_map, instructionsOf]
  congr
  funext l
  rw [Function.comp_apply, verdict_line]
  cases l.verdict with
  | skip => rfl
  | emit i => rfl
  | reject e => rfl

theorem errorsOf_map_of {line : SourceLine → SourceLine} {error : SourceError → SourceError}
    (verdict_line : ∀ l, (line l).verdict = l.verdict.mapError error) (lines : List SourceLine) :
    errorsOf (lines.map line) = (errorsOf lines).map error := by
  rw [errorsOf, List.filterMap_map, errorsOf, List.map_filterMap]
  congr
  funext l
  rw [Function.comp_apply, verdict_line]
  cases l.verdict with
  | skip => rfl
  | emit i => rfl
  | reject e => rfl

theorem LineChange.instructionsOf_map (change : LineChange) (lines : List SourceLine) :
    instructionsOf (lines.map change.line) = instructionsOf lines := instructionsOf_map_of change.verdict_line lines

theorem LineChange.errorsOf_map (change : LineChange) (lines : List SourceLine) :
    errorsOf (lines.map change.line) = (errorsOf lines).map change.error := errorsOf_map_of change.verdict_line lines

theorem LineChange.listed?_line (change : LineChange) (l : SourceLine) (address : Nat) :
    (change.line l).listed? (address + change.distance) = (l.listed? address).map change.entry := by
  rw [SourceLine.listed?, change.verdict_line, SourceLine.listed?]
  cases l.verdict with
  | skip => exact congrArg some (change.entry_skipped l).symm
  | emit i => exact congrArg some (change.entry_emitted l address i.encode).symm
  | reject e => rfl

/-- Lines that are listed as other lines, one by one and with all addresses moved on alike, have the listing of those. -/
theorem listingFrom_map_of {line : SourceLine → SourceLine} {entry : ListingLine → ListingLine} {distance : Nat}
    (same : ∀ l, instructionsOf [line l] = instructionsOf [l])
    (listed : ∀ l address, (line l).listed? (address + distance) = (l.listed? address).map entry) (address : Nat)
    (lines : List SourceLine) :
    listingFrom (address + distance) (lines.map line) = (listingFrom address lines).map entry := by
  induction lines generalizing address with
  | nil => rfl
  | cons l lines ih =>
    have next : address + distance + (instructionsOf [l]).length =
        address + (instructionsOf [l]).length + distance := by omega
    have rest := ih (address + (instructionsOf [l]).length)
    rw [List.map_cons, listingFrom, same, next, rest, listed, listingFrom, List.map_append, Option.toList_map]

theorem LineChange.listingFrom_map (change : LineChange) (address : Nat) (lines : List SourceLine) :
    listingFrom (address + change.distance) (lines.map change.line) =
      (listingFrom address lines).map change.entry :=
  listingFrom_map_of (fun l => change.instructionsOf_map [l]) change.listed?_line address lines

end OneBit
