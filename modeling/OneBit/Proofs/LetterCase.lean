import Mathlib.Data.Option.Basic
import OneBit.Proofs.AsciiLetters
import OneBit.Proofs.LineChanges
import OneBit.Proofs.SourceErrors
import OneBit.Proofs.WholeLines

namespace OneBit

/-- Texts that differ at most in the case of letters of ASCII. -/
def Text.SameLetters (s t : Text) : Prop := List.Forall₂ SameLetter s t

/-- The text with its ASCII letters as capitals. All other characters stay, also those that have a capital. -/
def Text.capitals (t : Text) : Text := t.map Char.toUpper

/-- Lists agree element by element, up to what a function forgets, if the function makes them equal. -/
theorem forall₂_iff_map_eq {α β : Type} {related : α → α → Prop} {f : α → β}
    (same : ∀ a b, related a b ↔ f a = f b) (l l' : List α) : List.Forall₂ related l l' ↔ l.map f = l'.map f := by
  obtain rfl : related = fun a b => f a = f b := funext fun a => funext fun b => propext (same a b)
  rw [← List.forall₂_eq_eq_eq, List.forall₂_map_left_iff, List.forall₂_map_right_iff]

theorem Text.sameLetters_iff {s t : Text} : s.SameLetters t ↔ s.capitals = t.capitals :=
  forall₂_iff_map_eq sameLetter_iff s t

theorem Text.capitals_append (s t : Text) : (s ++ t).capitals = s.capitals ++ t.capitals := List.map_append

theorem Text.upper_capitals (t : Text) : t.capitals.upper = t.upper := by
  rw [Text.upper, Text.capitals, List.flatMap_map, Text.upper]
  congr
  funext c
  exact upperChar_toUpper c

theorem Text.IsGap.capitals {gap : Text} (blank : gap.IsGap) : gap.capitals.IsGap := by
  intro c member
  obtain ⟨b, inside, rfl⟩ := List.mem_map.mp member
  rw [isBlank_toUpper]
  exact blank b inside

theorem Text.IsToken.capitals {word : Text} (token : word.IsToken) : word.capitals.IsToken := by
  refine ⟨fun empty => token.1 (List.map_eq_nil_iff.mp empty), ?_⟩
  intro c member
  obtain ⟨b, inside, rfl⟩ := List.mem_map.mp member
  rw [isBlank_toUpper, ne_eq, toUpper_eq_iff (by decide) (by decide)]
  exact token.2 b inside

theorem Text.Bounds.capitals {rest : Text} (bounds : rest.Bounds) : rest.capitals.Bounds := by
  intro c first
  rw [Text.capitals, List.head?_map] at first
  obtain ⟨b, found, rfl⟩ := Option.mem_map.mp first
  rw [isBlank_toUpper, toUpper_eq_iff (by decide) (by decide)]
  exact bounds b found

theorem Tokens.capitals {t : Text} {words : List Text} (tokens : Tokens t words) :
    Tokens t.capitals (words.map Text.capitals) := by
  induction tokens with
  | blank gap => exact .blank gap.capitals
  | comment gap =>
    rw [Text.capitals_append]
    exact .comment gap.capitals
  | token gap token bounds _ ih =>
    rw [Text.capitals_append, Text.capitals_append]
    exact .token gap.capitals token.capitals bounds.capitals ih

theorem Text.trim_capitals (t : Text) : t.capitals.trim = t.trim.capitals := by
  have blanks : isBlank ∘ Char.toUpper = isBlank := funext isBlank_toUpper
  rw [Text.trim, Text.capitals, List.dropWhile_map, ← List.map_reverse, List.dropWhile_map, ← List.map_reverse, blanks,
    Text.trim, Text.capitals]

theorem Text.feedless_capitals {line : Text} (clean : '\n' ∉ line) : '\n' ∉ line.capitals := by
  intro inside
  obtain ⟨c, member, feed⟩ := List.mem_map.mp inside
  rw [toUpper_eq_iff (by decide) (by decide)] at feed
  exact clean (feed ▸ member)

theorem Text.dropReturn_capitals (line : Text) : line.capitals.dropReturn = line.dropReturn.capitals := by
  have ended : line.capitals.getLast? = some '\r' ↔ line.getLast? = some '\r' := by
    rw [Text.capitals, List.getLast?_map, Option.map_eq_some_iff]
    constructor
    · rintro ⟨c, last, mark⟩
      rwa [(toUpper_eq_iff (by decide) (by decide) c).mp mark] at last
    · intro last
      exact ⟨'\r', last, rfl⟩
  rw [Text.dropReturn, Text.dropReturn]
  split
  · rename_i last
    rw [if_pos (ended.mp last), Text.capitals, ← List.map_dropLast, Text.capitals]
  · rename_i other
    rw [if_neg fun last => other (ended.mpr last)]

theorem Text.lines_capitals (t : Text) : t.capitals.lines = t.lines.map Text.capitals := by
  induction t using Text.line_induction with
  | last line clean =>
    by_cases filled : line = []
    · rw [filled]
      rfl
    · have still : line.capitals ≠ [] := fun empty => filled (List.map_eq_nil_iff.mp empty)
      rw [Text.lines_line clean filled, Text.lines_line (Text.feedless_capitals clean) still, List.map_singleton]
  | feed line rest clean ih =>
    have parts : (line ++ '\n' :: rest).capitals = line.capitals ++ '\n' :: rest.capitals :=
      Text.capitals_append line ('\n' :: rest)
    rw [parts, Text.lines_feed (Text.feedless_capitals clean), Text.lines_feed clean, List.map_cons, ih,
      Text.dropReturn_capitals]

def Statement.capitals (s : Statement) : Statement :=
  ⟨s.opcode.capitals, s.operand.map Text.capitals, s.extra.map Text.capitals⟩

theorem Statement.ofText?_capitals (t : Text) :
    Statement.ofText? t.capitals = (Statement.ofText? t).map Statement.capitals := by
  obtain ⟨words, tokens⟩ := Tokens.exists_of_text t
  rw [Statement.ofText?_eq, Statement.ofText?_eq, tokens.words_eq, tokens.capitals.words_eq]
  cases words with
  | nil => rfl
  | cons opcode rest => simp only [List.map_cons, List.getElem?_map, Option.map_some, Statement.capitals]

theorem Statement.operand?_capitals (s : Statement) :
    s.capitals.operand? = s.operand?.mapError (Prod.map id Text.capitals) := by
  obtain ⟨opcode, operand, extra⟩ := s
  cases operand with
  | none => rfl
  | some word =>
    have same : Operand.ofWord? word.capitals = Operand.ofWord? word := congrArg Operand.ofName? word.upper_capitals
    simp only [Statement.operand?, Statement.capitals, Option.map_some, same]
    cases Operand.ofWord? word with
    | none => rfl
    | some operand => rfl

/-- What a statement names does not depend on case. A word at fault is reported as it was written. -/
theorem Statement.instruction?_capitals (s : Statement) :
    s.capitals.instruction? = s.instruction?.mapError (Prod.map id Text.capitals) := by
  have same : Opcode.ofWord? s.capitals.opcode = Opcode.ofWord? s.opcode :=
    congrArg Opcode.ofName? s.opcode.upper_capitals
  rw [Statement.instruction?, Statement.instruction?, same, s.operand?_capitals]
  cases Opcode.ofWord? s.opcode with
  | none => rfl
  | some opcode =>
    cases s.operand? with
    | error fault => rfl
    | ok operand =>
      obtain ⟨first, second, third⟩ := s
      cases third with
      | none => rfl
      | some word => rfl

def SourceLine.capitals (l : SourceLine) : SourceLine := { l with raw := l.raw.capitals }

def SourceError.capitals (e : SourceError) : SourceError :=
  { e with text := e.text.capitals, token := e.token.capitals }

def ListingLine.capitals : ListingLine → ListingLine
  | .emitted address byte line text => .emitted address byte line text.capitals
  | .skipped line raw => .skipped line raw.capitals

theorem SourceLine.verdict_capitals (l : SourceLine) :
    l.capitals.verdict = l.verdict.mapError SourceError.capitals := by
  have text : l.capitals.text = l.text.capitals := l.raw.trim_capitals
  rw [SourceLine.verdict, SourceLine.verdict, text, Statement.ofText?_capitals]
  cases Statement.ofText? l.text with
  | none => rfl
  | some statement =>
    simp only [Option.map_some, statement.instruction?_capitals]
    cases statement.instruction? with
    | ok i => rfl
    | error fault => rfl

/-- Lines in capitals. -/
def LineChange.capitals : LineChange where
  line := SourceLine.capitals
  error := SourceError.capitals
  entry := ListingLine.capitals
  distance := 0
  verdict_line := SourceLine.verdict_capitals
  entry_skipped _ := rfl
  entry_emitted l address byte := congrArg (ListingLine.emitted address byte l.number) l.raw.trim_capitals.symm

theorem sourceLines_capitals (source : Text) :
    sourceLines source.capitals = (sourceLines source).map SourceLine.capitals := by
  rw [sourceLines, Text.lines_capitals, List.zipIdx_map, List.map_map, sourceLines, List.map_map]
  rfl

/-- Errors that differ at most in the case of the letters that they quote. -/
structure SourceError.SameButCase (e f : SourceError) : Prop where
  fault : e.fault = f.fault
  line : e.line = f.line
  text : e.text.SameLetters f.text
  token : e.token.SameLetters f.token

/-- Entries of a listing that differ at most in the case of the letters that they quote. -/
inductive ListingLine.SameButCase : ListingLine → ListingLine → Prop
  | emitted {address byte line text text'} : text.SameLetters text' →
      SameButCase (.emitted address byte line text) (.emitted address byte line text')
  | skipped {line raw raw'} : raw.SameLetters raw' → SameButCase (.skipped line raw) (.skipped line raw')

/-- Results of assembling that differ at most in the case of the letters that they quote. -/
inductive SameButCase : Except (List SourceError) Assembly → Except (List SourceError) Assembly → Prop
  | ok {a b : Assembly} : a.program = b.program → a.usage = b.usage →
      List.Forall₂ ListingLine.SameButCase a.listing b.listing → SameButCase (.ok a) (.ok b)
  | error {errors errors'} : List.Forall₂ SourceError.SameButCase errors errors' →
      SameButCase (.error errors) (.error errors')

theorem SourceError.sameButCase_iff (e f : SourceError) : e.SameButCase f ↔ e.capitals = f.capitals := by
  rw [SourceError.capitals, SourceError.capitals, SourceError.mk.injEq]
  constructor
  · intro same
    exact ⟨same.fault, same.line, Text.sameLetters_iff.mp same.text, Text.sameLetters_iff.mp same.token⟩
  · rintro ⟨fault, line, text, token⟩
    exact ⟨fault, line, Text.sameLetters_iff.mpr text, Text.sameLetters_iff.mpr token⟩

theorem ListingLine.sameButCase_iff (x y : ListingLine) : x.SameButCase y ↔ x.capitals = y.capitals := by
  constructor
  · rintro (text | raw)
    · rw [ListingLine.capitals, ListingLine.capitals, Text.sameLetters_iff.mp text]
    · rw [ListingLine.capitals, ListingLine.capitals, Text.sameLetters_iff.mp raw]
  · intro same
    cases x with
    | emitted address byte line text =>
      cases y with
      | emitted address' byte' line' text' =>
        rw [ListingLine.capitals, ListingLine.capitals, ListingLine.emitted.injEq] at same
        obtain ⟨rfl, rfl, rfl, letters⟩ := same
        exact .emitted (Text.sameLetters_iff.mpr letters)
      | skipped line' raw => cases same
    | skipped line raw =>
      cases y with
      | emitted address byte line' text => cases same
      | skipped line' raw' =>
        rw [ListingLine.capitals, ListingLine.capitals, ListingLine.skipped.injEq] at same
        obtain ⟨rfl, letters⟩ := same
        exact .skipped (Text.sameLetters_iff.mpr letters)

theorem instructionsOf_capitals (source : Text) :
    instructionsOf (sourceLines source.capitals) = instructionsOf (sourceLines source) := by
  rw [sourceLines_capitals]
  exact LineChange.capitals.instructionsOf_map (sourceLines source)

theorem errorsOf_capitals (source : Text) :
    errorsOf (sourceLines source.capitals) = (errorsOf (sourceLines source)).map SourceError.capitals := by
  rw [sourceLines_capitals]
  exact LineChange.capitals.errorsOf_map (sourceLines source)

theorem listingFrom_capitals (source : Text) :
    listingFrom 0 (sourceLines source.capitals) = (listingFrom 0 (sourceLines source)).map ListingLine.capitals := by
  rw [sourceLines_capitals]
  exact LineChange.capitals.listingFrom_map 0 (sourceLines source)

/-- Case does not matter. If letters change theirs, anywhere in a source, program and usage stay the same, and the
listing or the errors change no more than the case of what they quote. -/
theorem assemble_ignores_case (options : AssemblyOptions) {s t : Text} (same : s.SameLetters t) :
    SameButCase (assemble options s) (assemble options t) := by
  have capitals := Text.sameLetters_iff.mp same
  have instructions : instructionsOf (sourceLines s) = instructionsOf (sourceLines t) := by
    rw [← instructionsOf_capitals s, ← instructionsOf_capitals t, capitals]
  have errors : (errorsOf (sourceLines s)).map SourceError.capitals =
      (errorsOf (sourceLines t)).map SourceError.capitals := by
    rw [← errorsOf_capitals s, ← errorsOf_capitals t, capitals]
  have listing : (listingFrom 0 (sourceLines s)).map ListingLine.capitals =
      (listingFrom 0 (sourceLines t)).map ListingLine.capitals := by
    rw [← listingFrom_capitals s, ← listingFrom_capitals t, capitals]
  have accepted : errorsOf (sourceLines s) = [] ↔ errorsOf (sourceLines t) = [] := by
    rw [← List.map_eq_nil_iff, errors, List.map_eq_nil_iff]
  rw [assemble_eq, assemble_eq]
  by_cases good : errorsOf (sourceLines s) = []
  · rw [if_pos good, if_pos (accepted.mp good), instructions]
    refine .ok rfl rfl ?_
    dsimp only
    split
    · exact (forall₂_iff_map_eq ListingLine.sameButCase_iff _ _).mpr listing
    · exact .nil
  · rw [if_neg good, if_neg fun other => good (accepted.mpr other)]
    exact .error ((forall₂_iff_map_eq SourceError.sameButCase_iff _ _).mpr errors)

/-- The long s and the dotless i name opcodes and operands like the letters of ASCII that are their capitals, and stay
as they are in what is quoted. -/
theorem same_but_case_of_each_kind :
    (let s : Text := "Sto oR3\nld ır0 ; ſ\nſuz".toList
      let t : Text := "sTO Or3\nLD ıR0 ; ſ\nſUZ".toList
      s.SameLetters t ∧ assemble {} s = .error [⟨.unknownOperand, 2, "ld ır0 ; ſ".toList, "ır0".toList⟩,
        ⟨.unknownOpcode, 3, "ſuz".toList, "ſuz".toList⟩] ∧ SameButCase (assemble {} s) (assemble {} t)) ∧
    let s : Text := "; Straße\r\nſto ır2".toList
    let t : Text := "; sTRAßE\r\nſTO ıR2".toList
    s.SameLetters t ∧ (∃ a, assemble { listing := true } s = .ok a ∧
        a.listing = [.skipped 1 "; Straße".toList, .emitted 0 0x8A 2 "ſto ır2".toList]) ∧
      SameButCase (assemble { listing := true } s) (assemble { listing := true } t) := by
  constructor
  · have same : Text.SameLetters "Sto oR3\nld ır0 ; ſ\nſuz".toList "sTO Or3\nLD ıR0 ; ſ\nſUZ".toList :=
      Text.sameLetters_iff.mpr (by decide)
    exact ⟨same, by decide +kernel, assemble_ignores_case {} same⟩
  · have same : Text.SameLetters "; Straße\r\nſto ır2".toList "; sTRAßE\r\nſTO ıR2".toList :=
      Text.sameLetters_iff.mpr (by decide)
    have assembled : assemble { listing := true } "; Straße\r\nſto ır2".toList = .ok ⟨[⟨.sto, .channel 2⟩],
        .ofOpcodes [.sto], [.skipped 1 "; Straße".toList, .emitted 0 0x8A 2 "ſto ır2".toList]⟩ := by decide +kernel
    exact ⟨same, ⟨_, assembled, rfl⟩, assemble_ignores_case { listing := true } same⟩

end OneBit
