import OneBit.Proofs.InputNumerals
import OneBit.Proofs.TypedInputs

namespace OneBit

/-- How a line answers a request, if it does: with its value, or with nothing at all if it is not text. -/
def lineAnswer? (line : List UInt8) : Option (Option UInt8) :=
  match decodeText? line with
  | none => some none
  | some given => (parseInputBits given).toOption.map some

/-- A line of text that answers nothing, with the message about it, which quotes the line as it is. -/
def RefusedWith (line : List UInt8) (said : String) : Prop :=
  ∃ given error, decodeText? line = some given ∧ parseInputBits given = .error error ∧
    ∃ reason ∈ ["expected 1 to 7 binary digits, got", "not a binary number:"],
      said = "error: " ++ reason ++ " '" ++ String.ofList given ++ "'\n"

def prompts (count : Nat) : String := String.join (List.replicate count "Enter IR: ")

/-- One pass of a request, and its answer unless it has to ask again. -/
def Terminal.pass : Terminal → Option (Option UInt8) × Terminal
  | ⟨[], out, err⟩ => (some none, ⟨[], out ++ inputPrompt, err⟩)
  | ⟨line :: rest, out, err⟩ => match Reply.ofLine line with
    | .value bits => (some (some bits), ⟨rest, out ++ inputPrompt, err⟩)
    | .unreadable => (some none, ⟨rest, out ++ inputPrompt, err⟩)
    | .refused error => (none, ⟨rest, out ++ inputPrompt, err ++ error.complaint⟩)

/-- So many passes, of which the last one has the answer. -/
inductive Terminal.Passes : Nat → Terminal → Option UInt8 → Terminal → Prop
  | last {t answer next} : t.pass = (some answer, next) → Passes 1 t answer next
  | again {count t between answer next} : t.pass = (none, between) → Passes count between answer next →
      Passes (count + 1) t answer next

/-- What a request takes and prints, where `refused` are the lines that it refuses with what it says of them. Behind these
it takes the line that answers it, or else it has come to the end of the data. It prompts for every line that it takes,
and for the end of the data if it meets it. -/
structure Terminal.Request (t : Terminal) (answer : Option UInt8) (next : Terminal)
    (refused : List (List UInt8 × String)) : Prop where
  reasons : ∀ r ∈ refused, RefusedWith r.1 r.2
  taken : (∃ line, lineAnswer? line = some answer ∧ t.pending = refused.map (·.1) ++ line :: next.pending) ∨
    answer = none ∧ t.pending = refused.map (·.1) ∧ next.pending = []
  out : next.out = t.out ++ prompts (refused.length + 1)
  err : next.err = t.err ++ String.join (refused.map (·.2))

/-- The terminal after so many requests. -/
def Terminal.afterRequests (t : Terminal) : Nat → Terminal
  | 0 => t
  | count + 1 => (Terminal.nextInputs.run (t.afterRequests count)).2

/-- What some lines answer to requests, one after the other. -/
def answersIn (lines : List (List UInt8)) : List (Option UInt8) := lines.filterMap lineAnswer?

theorem prompts_succ (count : Nat) : prompts (count + 1) = inputPrompt ++ prompts count := by
  rw [prompts, List.replicate_succ, String.join_cons]
  rfl

theorem prompts_one : prompts 1 = inputPrompt := by
  rw [prompts_succ]
  rfl

theorem parseInputBits_error {given : Text} {error : InputBitsError} (refused : parseInputBits given = .error error) :
    error = .wrongLength given ∨ error = .notBinary given := by
  rw [parseInputBits_eq] at refused
  split at refused
  · exact Or.inl (Except.error.inj refused).symm
  · split at refused
    · cases refused
    · exact Or.inr (Except.error.inj refused).symm

theorem complaint_eq (given : Text) :
    (InputBitsError.wrongLength given).complaint =
        "error: " ++ "expected 1 to 7 binary digits, got" ++ " '" ++ String.ofList given ++ "'\n" ∧
      (InputBitsError.notBinary given).complaint =
        "error: " ++ "not a binary number:" ++ " '" ++ String.ofList given ++ "'\n" := by
  have wrongLength : "expected 1 to 7 binary digits, got '" = "expected 1 to 7 binary digits, got" ++ " '" := by decide
  have notBinary : "not a binary number: '" = "not a binary number:" ++ " '" := by decide
  have closing : "'\n" = "'" ++ "\n" := by decide
  unfold InputBitsError.complaint InputBitsError.message
  dsimp only
  rw [wrongLength, notBinary, closing]
  simp only [String.append_assoc, and_self]

theorem RefusedWith.of_reply {line : List UInt8} {error : InputBitsError} (reply : Reply.ofLine line = .refused error) :
    RefusedWith line error.complaint := by
  unfold Reply.ofLine at reply
  cases text : decodeText? line with
  | none => simp only [text, reduceCtorEq] at reply
  | some given =>
    cases parsed : parseInputBits given with
    | ok bits => simp only [text, parsed, reduceCtorEq] at reply
    | error bad =>
      simp only [text, parsed, Reply.refused.injEq] at reply
      subst reply
      refine ⟨given, bad, text, parsed, ?_⟩
      rcases parseInputBits_error parsed with rfl | rfl
      · exact ⟨_, List.mem_cons_self, (complaint_eq given).1⟩
      · exact ⟨_, List.mem_cons_of_mem _ List.mem_cons_self, (complaint_eq given).2⟩

theorem lineAnswer?_eq (line : List UInt8) : lineAnswer? line = match Reply.ofLine line with
    | .value bits => some (some bits)
    | .unreadable => some none
    | .refused _ => none := by
  unfold lineAnswer? Reply.ofLine
  cases decodeText? line with
  | none => rfl
  | some given =>
    dsimp only
    cases parseInputBits given with
    | ok bits => rfl
    | error error => rfl

theorem RefusedWith.no_answer {line : List UInt8} {said : String} (refused : RefusedWith line said) :
    lineAnswer? line = none := by
  obtain ⟨given, error, text, bad, -⟩ := refused
  rw [lineAnswer?, text]
  dsimp only
  rw [bad]
  rfl

/-- What a pass leads to. -/
inductive Terminal.PassCase (t : Terminal) : Option (Option UInt8) × Terminal → Prop
  | ended : t.pending = [] → PassCase t (some none, ⟨[], t.out ++ inputPrompt, t.err⟩)
  | answered {line rest answer} : t.pending = line :: rest → lineAnswer? line = some answer →
      PassCase t (some answer, ⟨rest, t.out ++ inputPrompt, t.err⟩)
  | refused {line rest said} : t.pending = line :: rest → RefusedWith line said →
      PassCase t (none, ⟨rest, t.out ++ inputPrompt, t.err ++ said⟩)

theorem Terminal.pass_cases (t : Terminal) : t.PassCase t.pass := by
  obtain ⟨lines, out, err⟩ := t
  cases lines with
  | nil => exact .ended rfl
  | cons line rest =>
    have answer := lineAnswer?_eq line
    cases reply : Reply.ofLine line with
    | value bits =>
      simp only [Terminal.pass, reply] at answer ⊢
      exact .answered rfl answer
    | unreadable =>
      simp only [Terminal.pass, reply] at answer ⊢
      exact .answered rfl answer
    | refused error =>
      simp only [Terminal.pass, reply]
      exact .refused rfl (.of_reply reply)

/-- A request is one pass, and the request again if the pass has no answer. -/
theorem Terminal.nextInputs_eq (t : Terminal) : Terminal.nextInputs.run t = match t.pass with
    | (some answer, next) => (answer, next)
    | (none, next) => Terminal.nextInputs.run next := by
  obtain ⟨lines, out, err⟩ := t
  cases lines with
  | nil => rfl
  | cons line rest =>
    rw [Terminal.nextInputs_cons, Terminal.pass]
    cases Reply.ofLine line with
    | value bits => rfl
    | unreadable => rfl
    | refused error => rfl

/-- A request ends, with at most one pass for each line and one for the end of the data. -/
theorem Terminal.passes_nextInputs (t : Terminal) : ∃ count, count ≤ t.pending.length + 1 ∧
    Terminal.Passes count t (Terminal.nextInputs.run t).1 (Terminal.nextInputs.run t).2 := by
  -- A pass that has to ask again took a line, so the lines that are left bound the passes.
  induction size : t.pending.length using Nat.strongRecOn generalizing t with
  | ind size' ih =>
    have asked := t.nextInputs_eq
    have reason := t.pass_cases
    generalize passed : t.pass = result at asked reason
    cases reason with
    | ended pending =>
      rw [asked]
      exact ⟨1, Nat.le_add_left 1 _, .last passed⟩
    | answered pending answer =>
      rw [asked]
      exact ⟨1, Nat.le_add_left 1 _, .last passed⟩
    | @refused line rest said pending refused =>
      rw [pending, List.length_cons] at size
      obtain ⟨count, bound, passes⟩ := ih rest.length (by omega) ⟨rest, t.out ++ inputPrompt, t.err ++ said⟩ rfl
      rw [asked]
      exact ⟨count + 1, by omega, .again passed passes⟩

theorem Terminal.Passes.request {count : Nat} {t next : Terminal} {answer : Option UInt8}
    (passes : Terminal.Passes count t answer next) :
    ∃ refused, t.Request answer next refused ∧ count = refused.length + 1 := by
  induction passes with
  | @last t answer next passed =>
    have reason := t.pass_cases
    rw [passed] at reason
    have nothing : ∀ r ∈ ([] : List (List UInt8 × String)), RefusedWith r.1 r.2 := fun _ member =>
      absurd member List.not_mem_nil
    have quiet : t.err = t.err ++ String.join [] := by rw [String.join_nil, String.append_empty]
    have prompt : t.out ++ inputPrompt = t.out ++ prompts 1 := by rw [prompts_one]
    cases reason with
    | ended pending => exact ⟨[], ⟨nothing, Or.inr ⟨rfl, pending, rfl⟩, prompt, quiet⟩, rfl⟩
    | answered pending answered => exact ⟨[], ⟨nothing, Or.inl ⟨_, answered, pending⟩, prompt, quiet⟩, rfl⟩
  | @again count t between answer next passed _ ih =>
    have reason := t.pass_cases
    rw [passed] at reason
    obtain ⟨more, later, counted⟩ := ih
    cases reason with
    | @refused line rest said pending refused =>
      refine ⟨(line, said) :: more, ⟨List.forall_mem_cons.mpr ⟨refused, later.reasons⟩, ?_, ?_, ?_⟩, ?_⟩
      · rcases later.taken with ⟨last, answered, parts⟩ | ⟨unanswered, parts, done⟩
        · refine Or.inl ⟨last, answered, ?_⟩
          rw [pending, List.map_cons, List.cons_append, ← parts]
        · refine Or.inr ⟨unanswered, ?_, done⟩
          rw [pending, List.map_cons, ← parts]
      · rw [later.out, List.length_cons, prompts_succ (more.length + 1), String.append_assoc]
      · rw [later.err, List.map_cons, String.join_cons, String.append_assoc]
      · rw [counted, List.length_cons]

/-- Refused lines answer nothing. -/
theorem answersIn_refused {refused : List (List UInt8 × String)} (reasons : ∀ r ∈ refused, RefusedWith r.1 r.2) :
    answersIn (refused.map (·.1)) = [] := by
  rw [answersIn, List.filterMap_eq_nil_iff]
  intro line member
  obtain ⟨r, inside, rfl⟩ := List.mem_map.mp member
  exact (reasons r inside).no_answer

/-- A request gives the first answer of the lines, and leaves the others. -/
theorem Terminal.Request.answers {t next : Terminal} {answer : Option UInt8} {refused : List (List UInt8 × String)}
    (request : t.Request answer next refused) : answer = (answersIn t.pending).getD 0 none ∧
      answersIn next.pending = (answersIn t.pending).tail := by
  have silent := answersIn_refused request.reasons
  rw [answersIn] at silent
  rcases request.taken with ⟨line, answered, parts⟩ | ⟨unanswered, parts, done⟩
  · have split : answersIn t.pending = answer :: answersIn next.pending := by
      rw [parts, answersIn, List.filterMap_append, silent, List.nil_append, List.filterMap_cons_some answered]
      rfl
    rw [split]
    exact ⟨rfl, rfl⟩
  · have none_left : answersIn t.pending = [] := by rw [parts, answersIn, silent]
    rw [none_left, done]
    exact ⟨unanswered, rfl⟩

theorem Terminal.request_nextInputs (t : Terminal) : ∃ refused,
    t.Request (Terminal.nextInputs.run t).1 (Terminal.nextInputs.run t).2 refused := by
  obtain ⟨count, -, passes⟩ := t.passes_nextInputs
  obtain ⟨refused, request, -⟩ := passes.request
  exact ⟨refused, request⟩

theorem Terminal.answersIn_afterRequests (t : Terminal) (count : Nat) :
    answersIn (t.afterRequests count).pending = (answersIn t.pending).drop count := by
  induction count with
  | zero => rfl
  | succ count ih =>
    obtain ⟨refused, request⟩ := (t.afterRequests count).request_nextInputs
    rw [Terminal.afterRequests, request.answers.2, ih, List.tail_drop]

/-- Requests at a terminal are answered by its lines in order, and then by nothing for ever. Each of them ends after so
many passes, each with a prompt and a read; it takes the lines up to the one that answers it, or all that are left, and
complains of each line that it refuses. -/
theorem requests_take_lines_in_order (data : List UInt8) : ∃ lines, ReadsLines data lines ∧
    (∀ other, ReadsLines data other → other = lines) ∧ ∀ count,
    let before := (Terminal.ofBytes data).afterRequests count
    let answer := (Terminal.nextInputs.run before).1
    let next := (Terminal.nextInputs.run before).2
    answer = (answersIn lines).getD count none ∧
    ∃ refused, before.Request answer next refused ∧ refused.length ≤ before.pending.length ∧
      Terminal.Passes (refused.length + 1) before answer next := by
  refine ⟨byteLines data, readsLines_byteLines data, fun other reads => readsLines_iff.mp reads, fun count => ?_⟩
  intro before answer next
  obtain ⟨passes, bound, passed⟩ := before.passes_nextInputs
  obtain ⟨refused, request, counted⟩ := passed.request
  have kept : answersIn before.pending = (answersIn (byteLines data)).drop count :=
    (Terminal.ofBytes data).answersIn_afterRequests count
  have first : answer = (answersIn before.pending).getD 0 none := request.answers.1
  refine ⟨?_, refused, request, by omega, counted ▸ passed⟩
  rw [first, kept, List.getD_eq_getElem?_getD, List.getElem?_drop, Nat.add_zero, ← List.getD_eq_getElem?_getD]

end OneBit
