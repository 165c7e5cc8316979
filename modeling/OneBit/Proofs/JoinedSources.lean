import OneBit.Proofs.LineChanges
import OneBit.Proofs.SourceErrors
import OneBit.Proofs.WholeLines

namespace OneBit

def SourceLine.moved (l : SourceLine) (lines : Nat) : SourceLine := { l with number := l.number + lines }

def SourceError.moved (e : SourceError) (lines : Nat) : SourceError := { e with line := e.line + lines }

def ListingLine.moved (lines addresses : Nat) : ListingLine → ListingLine
  | .emitted address byte line text => .emitted (address + addresses) byte (line + lines) text
  | .skipped line raw => .skipped (line + lines) raw

theorem SourceLine.verdict_moved (l : SourceLine) (lines : Nat) :
    (l.moved lines).verdict = l.verdict.mapError (·.moved lines) :=
  SourceLine.verdict_of_text rfl fun _ _ => rfl

/-- Lines that stand further down, behind so many instructions. -/
def LineChange.move (lines addresses : Nat) : LineChange where
  line := (·.moved lines)
  error := (·.moved lines)
  entry := ListingLine.moved lines addresses
  distance := addresses
  verdict_line l := l.verdict_moved lines
  entry_skipped _ := rfl
  entry_emitted _ _ _ := rfl

theorem sourceLines_append {s : Text} (whole : s.WholeLines) (t : Text) :
    sourceLines (s ++ t) = sourceLines s ++ (sourceLines t).map (·.moved s.lines.length) := by
  have later : t.lines.zipIdx (1 + s.lines.length) =
      (t.lines.zipIdx 1).map (Prod.map id (· + s.lines.length)) := by
    rw [List.map_snd_add_zipIdx_eq_zipIdx, Nat.add_comm]
  rw [sourceLines, whole.lines_append, List.zipIdx_append, later, List.map_append, List.map_map, sourceLines,
    sourceLines, List.map_map]
  rfl

theorem instructionsOf_joined {s : Text} (whole : s.WholeLines) (t : Text) :
    instructionsOf (sourceLines (s ++ t)) = instructionsOf (sourceLines s) ++ instructionsOf (sourceLines t) := by
  -- No instruction depends on an address, so any distance does.
  have same := (LineChange.move s.lines.length 0).instructionsOf_map (sourceLines t)
  rw [sourceLines_append whole, instructionsOf_append]
  exact congrArg (instructionsOf (sourceLines s) ++ ·) same

theorem errorsOf_joined {s : Text} (whole : s.WholeLines) (t : Text) :
    errorsOf (sourceLines (s ++ t)) =
      errorsOf (sourceLines s) ++ (errorsOf (sourceLines t)).map (·.moved s.lines.length) := by
  have moved := (LineChange.move s.lines.length 0).errorsOf_map (sourceLines t)
  rw [sourceLines_append whole, errorsOf_append]
  exact congrArg (errorsOf (sourceLines s) ++ ·) moved

theorem listingFrom_joined {s : Text} (whole : s.WholeLines) (t : Text) :
    listingFrom 0 (sourceLines (s ++ t)) = listingFrom 0 (sourceLines s) ++ (listingFrom 0 (sourceLines t)).map
      (ListingLine.moved s.lines.length (instructionsOf (sourceLines s)).length) := by
  have moved := (LineChange.move s.lines.length (instructionsOf (sourceLines s)).length).listingFrom_map 0 (sourceLines t)
  rw [sourceLines_append whole, listingFrom_append]
  exact congrArg (listingFrom 0 (sourceLines s) ++ ·) moved

/-- What an assembly is that holds two others, the second behind so many lines of the first. -/
structure Assembly.Joins (joined first second : Assembly) (lines : Nat) : Prop where
  program : joined.program = first.program ++ second.program
  count : ∀ o, joined.usage.count o = first.usage.count o + second.usage.count o
  total : joined.usage.total = first.usage.total + second.usage.total
  listing : joined.listing = first.listing ++ second.listing.map (ListingLine.moved lines first.program.length)

/-- The errors of a source, of which there are none if it assembled. -/
def errorsIn : Except (List SourceError) Assembly → List SourceError
  | .ok _ => []
  | .error errors => errors

theorem errorsIn_assemble (options : AssemblyOptions) (source : Text) :
    errorsIn (assemble options source) = errorsOf (sourceLines source) := by
  rw [assemble_eq]
  split
  · rename_i good
    exact good.symm
  · rfl

/-- A source behind whole lines is assembled on its own. Both halves assemble exactly if the whole does, their programs,
counts and listings add up, and of halves that are refused the errors are all reported, those of the second further down
by the lines of the first. -/
theorem assemble_append (options : AssemblyOptions) {s : Text} (whole : s.WholeLines) (t : Text) :
    let first := assemble options s
    let second := assemble options t
    let joined := assemble options (s ++ t)
    ((∃ c, joined = .ok c) ↔ (∃ a, first = .ok a) ∧ ∃ b, second = .ok b) ∧
    (∀ a b, first = .ok a → second = .ok b → ∃ c, joined = .ok c ∧ c.Joins a b s.lines.length) ∧
    (¬((∃ a, first = .ok a) ∧ ∃ b, second = .ok b) →
      joined = .error (errorsIn first ++ (errorsIn second).map (·.moved s.lines.length))) := by
  have both : (∃ c, assemble options (s ++ t) = .ok c) ↔
      (∃ a, assemble options s = .ok a) ∧ ∃ b, assemble options t = .ok b := by
    rw [assembles_iff, assembles_iff, assembles_iff, errorsOf_joined whole, List.append_eq_nil_iff, List.map_eq_nil_iff]
  refine ⟨both, ?_, ?_⟩
  · intro a b first second
    obtain ⟨c, joined⟩ := both.mpr ⟨⟨a, first⟩, b, second⟩
    refine ⟨c, joined, ?_⟩
    obtain rfl := eq_of_assembled first
    obtain rfl := eq_of_assembled second
    obtain rfl := eq_of_assembled joined
    have instructions := instructionsOf_joined whole t
    constructor
    case program => exact instructions
    case count =>
      intro o
      simp only [Usage.count_ofOpcodes, instructions, List.map_append, List.count_append]
    case total => simp only [Usage.total_ofOpcodes, instructions, List.map_append, List.length_append]
    case listing =>
      split
      · exact listingFrom_joined whole t
      · rfl
  · intro refused
    have bad : errorsOf (sourceLines (s ++ t)) ≠ [] := fun good => refused (both.mp (assembles_iff.mpr good))
    rw [assemble_eq, if_neg bad, errorsOf_joined whole, errorsIn_assemble, errorsIn_assemble]

/-- Two sources with an error each, and two that assemble, each pair joined. -/
theorem joined_sources_of_each_kind :
    (let s : Text := "\r\nfoo\n".toList
      let t : Text := "STO OR3\n LD IR0 ; no".toList
      s.WholeLines ∧ assemble {} (s ++ t) = .error [⟨.unknownOpcode, 2, "foo".toList, "foo".toList⟩,
        ⟨.unknownOperand, 4, "LD IR0 ; no".toList, "IR0".toList⟩]) ∧
    let s : Text := "; sets\n one\n".toList
    let t : Text := "\nHLT".toList
    s.WholeLines ∧ ∃ c, assemble { listing := true } (s ++ t) = .ok c ∧ c.program.encode = [0x40, 0xF0] ∧
      c.listing = [.skipped 1 "; sets".toList, .emitted 0 0x40 2 "one".toList, .skipped 3 [],
        .emitted 1 0xF0 4 "HLT".toList] := by
  constructor
  · refine ⟨Or.inr rfl, ?_⟩
    have refused : ∀ a, assemble {} "\r\nfoo\n".toList ≠ .ok a := by
      intro a assembled
      exact absurd (assembles_iff.mp ⟨a, assembled⟩) (by decide +kernel)
    obtain ⟨-, -, errors⟩ := assemble_append {} (Or.inr rfl : Text.WholeLines "\r\nfoo\n".toList)
      "STO OR3\n LD IR0 ; no".toList
    rw [errors fun ⟨⟨a, first⟩, _⟩ => refused a first]
    decide +kernel
  · refine ⟨Or.inr rfl, ?_⟩
    have first : assemble { listing := true } "; sets\n one\n".toList = .ok ⟨[⟨.one, .scratch 0⟩],
        .ofOpcodes [.one], [.skipped 1 "; sets".toList, .emitted 0 0x40 2 "one".toList]⟩ := by decide +kernel
    have second : assemble { listing := true } "\nHLT".toList = .ok ⟨[⟨.nopf, .scratch 0⟩],
        .ofOpcodes [.nopf], [.skipped 1 [], .emitted 0 0xF0 2 "HLT".toList]⟩ := by decide +kernel
    obtain ⟨-, assembles, -⟩ := assemble_append { listing := true }
      (Or.inr rfl : Text.WholeLines "; sets\n one\n".toList) "\nHLT".toList
    obtain ⟨c, joined, parts⟩ := assembles _ _ first second
    refine ⟨c, joined, ?_, ?_⟩
    · rw [parts.program]
      decide
    · rw [parts.listing]
      decide +kernel

end OneBit
