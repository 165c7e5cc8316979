import OneBit.Proofs.UsageCounts
import OneBit.Assembly

namespace OneBit

def Verdict.instruction? : Verdict → Option Instruction
  | .emit i => some i
  | _ => none

def Verdict.error? : Verdict → Option SourceError
  | .reject e => some e
  | _ => none

/-- The instructions among the verdicts on some lines, each line judged on its own. -/
def instructionsOf (lines : List SourceLine) : List Instruction := lines.filterMap (·.verdict.instruction?)

def errorsOf (lines : List SourceLine) : List SourceError := lines.filterMap (·.verdict.error?)

/-- How a line is listed if its instruction would stand at an address. A refused line is not listed. -/
def SourceLine.listed? (line : SourceLine) (address : Nat) : Option ListingLine :=
  match line.verdict with
  | .skip => some (.skipped line.number line.raw)
  | .emit i => some (.emitted address i.encode line.number line.text)
  | .reject _ => none

/-- The listing of some lines whose first instruction stands at an address. -/
def listingFrom (address : Nat) : List SourceLine → List ListingLine
  | [] => []
  | line :: lines => (line.listed? address).toList ++ listingFrom (address + (instructionsOf [line]).length) lines

theorem instructionsOf_append (before after : List SourceLine) :
    instructionsOf (before ++ after) = instructionsOf before ++ instructionsOf after := List.filterMap_append

theorem instructionsOf_singleton (line : SourceLine) :
    instructionsOf [line] = line.verdict.instruction?.toList := by
  cases found : line.verdict.instruction? with
  | none => simp [instructionsOf, found]
  | some i => simp [instructionsOf, found]

theorem errorsOf_append (before after : List SourceLine) :
    errorsOf (before ++ after) = errorsOf before ++ errorsOf after := List.filterMap_append

theorem errorsOf_singleton (line : SourceLine) : errorsOf [line] = line.verdict.error?.toList := by
  cases found : line.verdict.error? with
  | none => simp [errorsOf, found]
  | some e => simp [errorsOf, found]

theorem listingFrom_append (address : Nat) (before after : List SourceLine) :
    listingFrom address (before ++ after) =
      listingFrom address before ++ listingFrom (address + (instructionsOf before).length) after := by
  induction before generalizing address with
  | nil => rfl
  | cons line before ih =>
    have split : instructionsOf (line :: before) = instructionsOf [line] ++ instructionsOf before :=
      instructionsOf_append [line] before
    rw [List.cons_append, listingFrom, listingFrom, ih, split, List.length_append, List.append_assoc,
      Nat.add_assoc]

/-- What a line adds to a session, whatever the verdict on it. -/
theorem Session.feed_eq (s : Session) (line : SourceLine) : s.feed line =
    { options := s.options
      address := s.address + (instructionsOf [line]).length
      instructions := s.instructions ++ instructionsOf [line]
      usage := ((instructionsOf [line]).map (·.opcode)).foldl .record s.usage
      listing := s.listing ++ if s.options.listing then (line.listed? s.address).toList else []
      errors := s.errors ++ errorsOf [line] } := by
  rw [instructionsOf_singleton, errorsOf_singleton]
  cases verdict : line.verdict with
  | skip =>
    simp only [Session.feed, Session.list, SourceLine.listed?, verdict]
    split <;> simp [Verdict.instruction?, Verdict.error?]
  | emit i =>
    simp only [Session.feed, Session.list, Session.emit, SourceLine.listed?, verdict]
    split <;> simp [Verdict.instruction?, Verdict.error?]
  | reject e => simp [Session.feed, SourceLine.listed?, verdict, Verdict.instruction?, Verdict.error?]

/-- What a session holds when some lines have been fed to it. -/
structure Session.Holds (s : Session) (options : AssemblyOptions) (lines : List SourceLine) : Prop where
  sameOptions : s.options = options
  address : s.address = (instructionsOf lines).length
  instructions : s.instructions.toList = instructionsOf lines
  usage : s.usage = .ofOpcodes ((instructionsOf lines).map (·.opcode))
  listing : s.listing.toList = if options.listing then listingFrom 0 lines else []
  errors : s.errors.toList = errorsOf lines

theorem Session.holds_nil (options : AssemblyOptions) : Session.Holds { options } options [] where
  sameOptions := rfl
  address := rfl
  instructions := rfl
  usage := rfl
  listing := (ite_self _).symm
  errors := rfl

theorem Session.Holds.feed {s : Session} {options : AssemblyOptions} {lines : List SourceLine}
    (holds : s.Holds options lines) (line : SourceLine) : (s.feed line).Holds options (lines ++ [line]) := by
  have next : listingFrom 0 (lines ++ [line]) =
      listingFrom 0 lines ++ (line.listed? (instructionsOf lines).length).toList := by
    rw [listingFrom_append, Nat.zero_add, listingFrom, listingFrom, List.append_nil]
  rw [Session.feed_eq]
  constructor
  case sameOptions => exact holds.sameOptions
  case address => rw [holds.address, instructionsOf_append, List.length_append]
  case instructions => rw [Array.toList_appendList, holds.instructions, instructionsOf_append]
  case usage =>
    rw [holds.usage, instructionsOf_append, List.map_append, Usage.ofOpcodes, Usage.ofOpcodes, List.foldl_append]
  case listing =>
    rw [Array.toList_appendList, holds.listing, holds.sameOptions, holds.address, next]
    split
    · rfl
    · rfl
  case errors => rw [Array.toList_appendList, holds.errors, errorsOf_append]

theorem Session.Holds.feedAll {s : Session} {options : AssemblyOptions} {before : List SourceLine}
    (holds : s.Holds options before) (lines : List SourceLine) :
    (s.feedAll lines).Holds options (before ++ lines) := by
  induction lines generalizing s before with
  | nil =>
    rw [List.append_nil]
    exact holds
  | cons line lines ih =>
    have rest := ih (holds.feed line)
    rw [List.append_assoc, List.singleton_append] at rest
    exact rest

theorem Session.holds_feedAll (options : AssemblyOptions) (lines : List SourceLine) :
    (Session.feedAll { options } lines).Holds options lines := (Session.holds_nil options).feedAll lines

theorem errorsOf_cons_eq_nil {line : SourceLine} {lines : List SourceLine} (good : errorsOf (line :: lines) = []) :
    errorsOf [line] = [] ∧ errorsOf lines = [] := by
  rwa [← List.singleton_append, errorsOf_append, List.append_eq_nil_iff] at good

theorem SourceLine.exists_listed {line : SourceLine} (good : errorsOf [line] = []) (address : Nat) :
    ∃ entry, line.listed? address = some entry := by
  rw [errorsOf_singleton] at good
  cases verdict : line.verdict with
  | skip => exact ⟨_, by rw [SourceLine.listed?, verdict]⟩
  | emit i => exact ⟨_, by rw [SourceLine.listed?, verdict]⟩
  | reject e => simp [verdict, Verdict.error?] at good

theorem listingFrom_length (address : Nat) {lines : List SourceLine} (good : errorsOf lines = []) :
    (listingFrom address lines).length = lines.length := by
  induction lines generalizing address with
  | nil => rfl
  | cons line lines ih =>
    obtain ⟨first, rest⟩ := errorsOf_cons_eq_nil good
    obtain ⟨entry, listed⟩ := SourceLine.exists_listed first address
    rw [listingFrom, listed, Option.toList_some, List.singleton_append, List.length_cons, ih _ rest,
      List.length_cons]

/-- If no line is refused, each line is listed in its place, at the number of instructions before it. -/
theorem listingFrom_getElem? (address : Nat) {lines : List SourceLine} (good : errorsOf lines = []) (i : Nat) :
    (listingFrom address lines)[i]? =
      lines[i]?.bind fun line => line.listed? (address + (instructionsOf (lines.take i)).length) := by
  induction lines generalizing address i with
  | nil => rfl
  | cons line lines ih =>
    obtain ⟨first, rest⟩ := errorsOf_cons_eq_nil good
    obtain ⟨entry, listed⟩ := SourceLine.exists_listed first address
    rw [listingFrom, listed]
    cases i with
    | zero => exact listed.symm
    | succ i =>
      have split : instructionsOf (line :: lines.take i) = instructionsOf [line] ++ instructionsOf (lines.take i) :=
        instructionsOf_append [line] _
      rw [Option.toList_some, List.singleton_append, List.getElem?_cons_succ, List.getElem?_cons_succ,
        ih _ rest, List.take_succ_cons, split, List.length_append, Nat.add_assoc]

theorem Session.Holds.finish {s : Session} {options : AssemblyOptions} {lines : List SourceLine}
    (holds : s.Holds options lines) : s.finish =
      if errorsOf lines = [] then
        .ok ⟨instructionsOf lines, s.usage, if options.listing then listingFrom 0 lines else []⟩
      else .error (errorsOf lines) := by
  have clean : s.errors.isEmpty = true ↔ errorsOf lines = [] := by
    rw [← holds.errors, Array.isEmpty_iff, Array.toList_eq_nil_iff]
  rw [Session.finish, holds.errors, holds.instructions, holds.listing]
  simp only [clean]

/-- Total and counts of a session agree with its instructions. -/
theorem Session.Holds.counts {s : Session} {options : AssemblyOptions} {lines : List SourceLine}
    (holds : s.Holds options lines) :
    s.usage.total = (instructionsOf lines).length ∧
      (Opcode.all.toList.map s.usage.count).sum = (instructionsOf lines).length ∧
      ∀ o, s.usage.count o = (instructionsOf lines).countP (·.opcode = o) := by
  rw [holds.usage]
  refine ⟨?_, ?_, ?_⟩
  · rw [Usage.total_ofOpcodes, List.length_map]
  · rw [Usage.sum_count_ofOpcodes, List.length_map]
  · intro o
    rw [Usage.count_ofOpcodes, List.count, List.countP_map]
    rfl

theorem instructionsOf_good (lines : List SourceLine) :
    instructionsOf (lines.filter (·.verdict.error?.isNone)) = instructionsOf lines := by
  rw [instructionsOf, List.filterMap_filter, instructionsOf]
  congr
  funext line
  cases line.verdict with
  | skip => rfl
  | emit i => rfl
  | reject e => rfl

theorem Session.Holds.same_program {s t : Session} {options other : AssemblyOptions} {lines lines' : List SourceLine}
    (holds : s.Holds options lines) (holds' : t.Holds other lines')
    (same : instructionsOf lines = instructionsOf lines') :
    s.instructions = t.instructions ∧ s.address = t.address ∧ s.usage = t.usage := by
  refine ⟨Array.toList_inj.mp ?_, ?_, ?_⟩
  · rw [holds.instructions, holds'.instructions, same]
  · rw [holds.address, holds'.address, same]
  · rw [holds.usage, holds'.usage, same]

/-- A session is accountable to the verdicts on its lines. After any number of them the errors and the
instructions are those verdicts in order, and all counters agree with them. The session ends with its errors
exactly if a line is refused, and otherwise with a listing of one entry for each line, if one is asked for.
Neither listing nor leaving out the refused lines changes what is assembled. -/
theorem Session.feedAll_accounts (options : AssemblyOptions) (lines : List SourceLine) :
    (∀ n, let fed := lines.take n
      let s := Session.feedAll { options } fed
      s.errors.toList = errorsOf fed ∧ s.instructions.toList = instructionsOf fed ∧
      s.address = (instructionsOf fed).length ∧ s.usage.total = (instructionsOf fed).length ∧
      (Opcode.all.toList.map s.usage.count).sum = (instructionsOf fed).length ∧
      ∀ o, s.usage.count o = (instructionsOf fed).countP (·.opcode = o)) ∧
    let s := Session.feedAll { options } lines
    (errorsOf lines ≠ [] ∧ s.finish = .error (errorsOf lines) ∨
      errorsOf lines = [] ∧ ∃ listing, s.finish = .ok ⟨instructionsOf lines, s.usage, listing⟩ ∧
        if options.listing then
          listing.length = lines.length ∧ ∀ i, (inside : i < lines.length) →
            listing[i]? = lines[i].listed? (instructionsOf (lines.take i)).length
        else listing = []) ∧
    ∀ other : AssemblyOptions,
      let t := Session.feedAll { options := other } (lines.filter (·.verdict.error?.isNone))
      t.instructions = s.instructions ∧ t.address = s.address ∧ t.usage = s.usage := by
  have holds := Session.holds_feedAll options lines
  refine ⟨?_, ?_, ?_⟩
  · intro n
    have holds := Session.holds_feedAll options (lines.take n)
    exact ⟨holds.errors, holds.instructions, holds.address, holds.counts⟩
  · rw [holds.finish]
    by_cases good : errorsOf lines = []
    · rw [if_pos good]
      refine Or.inr ⟨good, _, rfl, ?_⟩
      split
      · refine ⟨listingFrom_length 0 good, ?_⟩
        intro i inside
        rw [listingFrom_getElem? 0 good, List.getElem?_eq_getElem inside, Option.bind_some, Nat.zero_add]
      · rfl
    · rw [if_neg good]
      exact Or.inl ⟨good, rfl⟩
  · intro other
    have good := Session.holds_feedAll other (lines.filter (·.verdict.error?.isNone))
    exact good.same_program holds (instructionsOf_good lines)

end OneBit
