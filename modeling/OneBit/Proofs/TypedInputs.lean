import OneBit.Proofs.StepBudget
import OneBit.Terminal

namespace OneBit

/-- A source that answers with the values of a list, one after the other, and then has none. Nothing is said of
what it does afterwards, since no run asks again. -/
inductive HandsOut {σ : Type} (source : StateM σ (Option UInt8)) : σ → List UInt8 → Prop
  | none {s s'} : source.run s = (none, s') → HandsOut source s []
  | some {s s' bits values} : source.run s = (some bits, s') → HandsOut source s' values →
      HandsOut source s (bits :: values)

section Sources

variable {σ : Type} {source : StateM σ (Option UInt8)} {tape : Tape}

theorem HandsOut.of_same_answer {s t : σ} {values : List UInt8} (gives : HandsOut source s values)
    (same : source.run t = source.run s) : HandsOut source t values := by
  cases gives with
  | none asked => exact .none (same.trans asked)
  | some asked rest => exact .some (same.trans asked) rest

theorem Emulator.drive_of_handsOut {s : σ} {values : List UInt8} (gives : HandsOut source s values) (budget : Nat)
    (e : Emulator) : ((e.drive tape source budget).run s).1 = (e.driveScripted tape budget values).1 := by
  induction budget generalizing e s values with
  | zero => rfl
  | succ budget ih =>
    cases fetch : e.fetch tape with
    | went next =>
      rw [Emulator.drive_went fetch, Emulator.driveScripted_went fetch]
      exact ih gives next
    | halt last => rw [Emulator.drive_halt fetch, Emulator.driveScripted_halt fetch]
    | request next =>
      cases gives with
      | none asked => rw [Emulator.drive_unanswered fetch budget asked, Emulator.driveScripted_request_nil fetch]
      | @some s s' bits values asked rest =>
        rw [Emulator.drive_answered fetch budget asked, Emulator.driveScripted_request_cons fetch]
        exact ih rest (next.answer bits)

theorem Emulator.execute_of_handsOut {s : σ} {values : List UInt8} (gives : HandsOut source s values)
    (program : Program) (limit : Nat) (e : Emulator) :
    ((e.execute program limit source).run s).1 = (Emulator.executeScripted program limit values e).1 := by
  cases loaded : Tape.ofProgram? program with
  | error error =>
    rw [Emulator.executeScripted, Emulator.execute_refused loaded, Emulator.execute_refused loaded]
  | ok tape =>
    have same : ((e.drive tape source (limit - e.steps)).run s).1 =
        (e.driveScripted tape (limit - e.steps) values).1 := Emulator.drive_of_handsOut gives _ e
    rw [Emulator.execute_run loaded, Emulator.executeScripted_eq loaded]
    generalize (e.drive tape source (limit - e.steps)).run s = typed at same ⊢
    generalize e.driveScripted tape (limit - e.steps) values = scripted at same ⊢
    obtain ⟨⟨stop, last⟩, left⟩ := typed
    obtain ⟨ended, unread⟩ := scripted
    cases same
    rfl

end Sources

/-- How a stream of bytes is read line by line. A line ends at its first line feed, and what follows the last line
feed is a line if it is not empty. -/
inductive ReadsLines : List UInt8 → List (List UInt8) → Prop
  | done : ReadsLines [] []
  | unended {line} : line ≠ [] → 10 ∉ line → ReadsLines line [line]
  | ended {line data lines} : 10 ∉ line → ReadsLines data lines →
      ReadsLines (line ++ 10 :: data) ((line ++ [10]) :: lines)

theorem byteLines_unended {line : List UInt8} (filled : line ≠ []) (unfed : 10 ∉ line) : byteLines line = [line] := by
  induction line with
  | nil => exact absurd rfl filled
  | cons byte line ih =>
    have rest := List.not_mem_of_not_mem_cons unfed
    rw [byteLines, if_neg (List.ne_of_not_mem_cons unfed).symm]
    cases line with
    | nil => rfl
    | cons next line => rw [ih (List.cons_ne_nil _ _) rest]

theorem byteLines_ended {line : List UInt8} (unfed : 10 ∉ line) (data : List UInt8) :
    byteLines (line ++ 10 :: data) = (line ++ [10]) :: byteLines data := by
  induction line with
  | nil => rfl
  | cons byte line ih =>
    rw [List.cons_append, byteLines, if_neg (List.ne_of_not_mem_cons unfed).symm,
      ih (List.not_mem_of_not_mem_cons unfed)]
    rfl

theorem readsLines_byteLines (data : List UInt8) : ReadsLines data (byteLines data) := by
  induction data with
  | nil => exact .done
  | cons byte data ih =>
    by_cases feed : byte = 10
    · subst feed
      have bare : 10 ∉ ([] : List UInt8) := List.not_mem_nil
      exact .ended bare ih
    · have more : ∀ {line : List UInt8}, 10 ∉ line → 10 ∉ byte :: line := by
        intro line rest member
        rcases List.mem_cons.mp member with first | later
        · exact feed first.symm
        · exact rest later
      rw [byteLines, if_neg feed]
      generalize byteLines data = lines at ih
      cases ih with
      | done => exact .unended (List.cons_ne_nil _ _) (more List.not_mem_nil)
      | unended filled rest => exact .unended (List.cons_ne_nil _ _) (more rest)
      | ended rest tail => exact .ended (more rest) tail

theorem readsLines_iff {data : List UInt8} {lines : List (List UInt8)} :
    ReadsLines data lines ↔ lines = byteLines data := by
  constructor
  · intro reads
    induction reads with
    | done => rfl
    | unended filled rest => rw [byteLines_unended filled rest]
    | ended rest tail ih => rw [byteLines_ended rest, ih]
  · rintro rfl
    exact readsLines_byteLines data

/-- The values among some lines, up to the first line that is not text. A line of text that is no value does not
count. -/
def typedValues (lines : List (List UInt8)) : List UInt8 :=
  (lines.takeWhile fun line => (decodeText? line).isSome).filterMap fun line =>
    (decodeText? line).bind fun given => (parseInputBits given).toOption

theorem typedValues_cons (line : List UInt8) (lines : List (List UInt8)) :
    typedValues (line :: lines) = match Reply.ofLine line with
      | .value bits => bits :: typedValues lines
      | .unreadable => []
      | .refused _ => typedValues lines := by
  unfold typedValues Reply.ofLine
  cases text : decodeText? line with
  | none => simp [text]
  | some given =>
    cases parsed : parseInputBits given with
    | ok bits => simp [text, parsed, Except.toOption]
    | error error => simp [text, parsed, Except.toOption]

/-- A request at a line answers with it, or goes on behind it. -/
theorem Terminal.nextInputs_cons (line : List UInt8) (lines : List (List UInt8)) (out err : String) :
    Terminal.nextInputs.run ⟨line :: lines, out, err⟩ = match Reply.ofLine line with
      | .value bits => (some bits, ⟨lines, out ++ inputPrompt, err⟩)
      | .unreadable => (none, ⟨lines, out ++ inputPrompt, err⟩)
      | .refused error => Terminal.nextInputs.run ⟨lines, out ++ inputPrompt, err ++ error.complaint⟩ := rfl

/-- A terminal hands out the values that are typed, whatever it printed before. -/
theorem Terminal.handsOut (t : Terminal) : HandsOut Terminal.nextInputs t (typedValues t.pending) := by
  obtain ⟨lines, out, err⟩ := t
  induction lines generalizing out err with
  | nil => exact .none rfl
  | cons line lines ih =>
    have asked := Terminal.nextInputs_cons line lines out err
    rw [typedValues_cons]
    cases reply : Reply.ofLine line with
    | value bits =>
      rw [reply] at asked
      exact .some asked (ih _ _)
    | unreadable =>
      rw [reply] at asked
      exact .none asked
    | refused error =>
      rw [reply] at asked
      exact (ih _ _).of_same_answer asked

/-- A stream of bytes has one reading as lines, and a run that asks for its inputs at a terminal with that stream
has the result of the run on the values of its lines. -/
theorem execute_typed_eq_run (program : Program) (limit : Nat) (data : List UInt8) :
    ∃ lines, ReadsLines data lines ∧ (∀ other, ReadsLines data other → other = lines) ∧
      ((Emulator.execute program limit Terminal.nextInputs {}).run (Terminal.ofBytes data)).1.1 =
        run program (typedValues lines) limit := by
  refine ⟨byteLines data, readsLines_byteLines data, fun other reads => readsLines_iff.mp reads, ?_⟩
  have gives := Terminal.handsOut (Terminal.ofBytes data)
  rw [Emulator.execute_of_handsOut gives]
  rfl

end OneBit
