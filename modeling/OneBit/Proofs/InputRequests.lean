import OneBit.Proofs.RunStates

namespace OneBit

/-- The next fetch asks for inputs: it finds a `NOPF` that is not skipped, at a position other than the last one. -/
def Emulator.requestsInputs (program : Program) (e : Emulator) : Bool :=
  program[e.position]?.any fun i =>
    i.opcode == .nopf && !e.machine.skip && e.position + 1 != program.length

/-- How many requests a run with listed inputs makes under a limit. -/
def requestsWithin (program : Program) (inputs : List UInt8) (limit : Nat) : Nat :=
  (fetchedStates program nextScripted inputs limit).countP (Emulator.requestsInputs program)

def Fetch.isRequest : Fetch → Bool
  | .request _ => true
  | .went _ | .halt _ => false

/-- What a run has made of its inputs, by the number of its requests: it took them in their order, it has stopped for
want of them if there was one request too many, and the last one that it got is held by the input registers. -/
structure Served (inputs : List UInt8) (requests : Nat) (stop : Option Stop) (e : Emulator)
    (unread : List UInt8) : Prop where
  unread_eq : unread = inputs.drop requests
  missed_iff : stop = some .inputsExhausted ↔ inputs.length < requests
  held : ∀ index : Fin 8, index.val ≠ 0 → e.machine.inputs.get index =
    (inputs.take requests).getLast?.any fun bits => bits.toNat.testBit (index.val - 1)

theorem Emulator.machine_of_request {tape : Tape} {e next : Emulator} (fetch : e.fetch tape = .request next) :
    next.machine = e.machine := by
  have reason := e.fetch_cases tape
  rw [fetch] at reason
  cases reason with
  | requested clear final around => rfl

theorem nextScripted_some {inputs rest : List UInt8} {bits : UInt8}
    (asked : nextScripted.run inputs = (some bits, rest)) : inputs = bits :: rest := by
  cases inputs with
  | nil => cases asked
  | cons first inputs =>
    cases asked
    rfl

theorem nextScripted_none {inputs rest : List UInt8} (asked : nextScripted.run inputs = (none, rest)) :
    inputs = [] ∧ rest = [] := by
  cases inputs with
  | nil =>
    cases asked
    exact ⟨rfl, rfl⟩
  | cons first inputs => cases asked

theorem Emulator.ok_ending_iff {e : Emulator} {limit : Nat} {stop : Option Stop} {reason : Stop} :
    (∃ outcome, e.ending limit stop = .ok outcome ∧ outcome.stop = reason) ↔ stop = some reason := by
  constructor
  · rintro ⟨outcome, ok, rfl⟩
    cases stop with
    | none => cases ok
    | some reason =>
      cases ok
      rfl
  · rintro rfl
    exact ⟨_, rfl, rfl⟩

section Served

variable {inputs unread : List UInt8} {requests : Nat} {e next : Emulator}

theorem Served.new (inputs : List UInt8) : Served inputs 0 none {} inputs where
  unread_eq := rfl
  missed_iff := iff_of_false (fun other => nomatch other) (Nat.not_lt_zero _)
  held index _ := Vector.getElem_replicate index.isLt

theorem Served.requests_le (served : Served inputs requests none e unread) : requests ≤ inputs.length := by
  have enough := mt served.missed_iff.mpr (fun other => nomatch other)
  omega

/-- A fetch that is no request takes nothing. -/
theorem Served.unasked (served : Served inputs requests none e unread)
    (same : next.machine.inputs = e.machine.inputs) {stop : Option Stop} (other : stop ≠ some .inputsExhausted) :
    Served inputs requests stop next unread where
  unread_eq := served.unread_eq
  missed_iff := iff_of_false other (Nat.not_lt.mpr served.requests_le)
  held index used := by rw [same, served.held index used]

/-- An answer is the value behind those that were taken before. -/
theorem Served.answered {bits : UInt8} (served : Served inputs requests none e (bits :: unread)) :
    Served inputs (requests + 1) none (next.answer bits) unread := by
  have following := served.unread_eq
  have here : inputs[requests]? = some bits := by rw [← List.head?_drop, ← following, List.head?_cons]
  have inside : requests < inputs.length := (List.getElem?_eq_some_iff.mp here).1
  constructor
  · rw [← List.tail_drop, ← following, List.tail_cons]
  · exact iff_of_false (fun other => nomatch other) (by omega)
  · intro index used
    rw [List.take_add_one, here, Option.toList_some, List.getLast?_concat, Option.any_some]
    change (next.machine.loadInputs bits).inputs.get index = _
    rw [Machine.get_loadInputs, if_neg used]

/-- A request behind the last value leaves everything as it is. -/
theorem Served.unanswered (served : Served inputs requests none e [])
    (same : next.machine.inputs = e.machine.inputs) :
    Served inputs (requests + 1) (some .inputsExhausted) next [] := by
  have all_taken : inputs.length ≤ requests := List.drop_eq_nil_iff.mp served.unread_eq.symm
  constructor
  · rw [List.drop_eq_nil_iff.mpr (by omega)]
  · exact iff_of_true rfl (by omega)
  · intro index used
    rw [same, served.held index used, List.take_of_length_le all_taken, List.take_of_length_le (by omega)]

end Served

section Runs

variable {program : Program} {filled : program ≠ []} {fits : program.length ≤ tapeCapacity} {past : List Emulator}
  {e : Emulator} {inputs unread : List UInt8}

theorem TapeHistory.requestsInputs_eq {limit : Nat}
    (history : TapeHistory (program.tape filled fits) limit past e) :
    e.requestsInputs program = (e.fetch (program.tape filled fits)).isRequest := by
  have here := history.instruction
  have inside := (List.getElem?_eq_some_iff.mp here).1
  have last : (e.position + 1) % (program.tape filled fits).size = 0 ↔ e.position + 1 = program.length := by
    change (e.position + 1) % program.length = 0 ↔ e.position + 1 = program.length
    constructor
    · intro around
      by_contra apart
      rw [Nat.mod_eq_of_lt (by omega)] at around
      omega
    · intro final
      rw [final, Nat.mod_self]
  rw [Emulator.requestsInputs, here, Option.any_some]
  have reason := e.fetch_cases (program.tape filled fits)
  generalize e.fetch (program.tape filled fits) = f at reason
  cases reason with
  | skipped skip => simp only [skip, Bool.not_true, Bool.and_false, Bool.false_and, Fetch.isRequest]
  | halted clear final around => simp [last.mp around, Fetch.isRequest]
  | requested clear final around =>
    have inner : e.position + 1 ≠ program.length := fun same => around (last.mpr same)
    simp [clear, final, inner, Fetch.isRequest]
  | executed clear ordinary => simp [ordinary, Fetch.isRequest]

theorem TapeRun.served {stop : Option Stop}
    (run : TapeRun (program.tape filled fits) nextScripted inputs past stop e unread) :
    Served inputs (past.countP (Emulator.requestsInputs program)) stop e unread := by
  -- One state more makes one request more, or none, as its fetch says.
  have counted : ∀ {past : List Emulator} {e : Emulator} {t : List UInt8} {f : Fetch},
      TapeRun (program.tape filled fits) nextScripted inputs past none e t →
      e.fetch (program.tape filled fits) = f →
      (past ++ [e]).countP (Emulator.requestsInputs program) =
        past.countP (Emulator.requestsInputs program) + if f.isRequest then 1 else 0 := by
    intro past e t f run fetch
    have history := run.history (Nat.le_refl e.steps)
    rw [List.countP_append, List.countP_singleton, history.requestsInputs_eq, fetch]
  have kept : ∀ {e next : Emulator}, (e.fetch (program.tape filled fits)).emulator = next →
      next.machine.inputs = e.machine.inputs := by
    intro e next fetch
    rw [← fetch, Emulator.inputs_after_fetch]
  induction run with
  | new => exact .new inputs
  | @went past e next t run fetch ih =>
    rw [counted run fetch]
    exact ih.unasked (kept (by rw [fetch]; rfl)) (fun other => nomatch other)
  | @halted past e last t run fetch ih =>
    rw [counted run fetch]
    exact ih.unasked (kept (by rw [fetch]; rfl)) (fun other => nomatch other)
  | @answered past e next t t' bits run fetch asked ih =>
    rw [counted run fetch]
    rw [nextScripted_some asked] at ih
    exact ih.answered
  | @unanswered past e last t t' run fetch asked ih =>
    obtain ⟨empty, left⟩ := nextScripted_none asked
    rw [counted run fetch, left]
    rw [empty] at ih
    exact ih.unanswered (kept (by rw [fetch]; rfl))

/-- A request that finds a value left is answered with it. -/
theorem loads_answer (loaded : Tape.ofProgram? program = .ok (program.tape filled fits)) {fetches limit : Nat}
    (further : fetches < (stateAfter program nextScripted inputs limit).steps)
    (asks : (stateAfter program nextScripted inputs fetches).requestsInputs program = true) {bits : UInt8}
    (answer : inputs[requestsWithin program inputs fetches]? = some bits) :
    (stateAfter program nextScripted inputs (fetches + 1)).machine =
      (stateAfter program nextScripted inputs fetches).machine.loadInputs bits := by
  obtain ⟨unread, driven⟩ := exists_drive_before loaded further
  have served := (tapeRun_of_drive loaded driven).1.served
  have history := tapeHistory_of_run loaded nextScripted inputs fetches
  rw [history.requestsInputs_eq] at asks
  obtain ⟨inside, here⟩ := List.getElem?_eq_some_iff.mp answer
  have left : unread = bits :: inputs.drop (requestsWithin program inputs fetches + 1) := by
    rw [served.unread_eq, ← here]
    exact List.drop_eq_getElem_cons inside
  cases fetch : (stateAfter program nextScripted inputs fetches).fetch (program.tape filled fits) with
  | went next | halt next =>
    rw [fetch] at asks
    cases asks
  | request next =>
    have one := Emulator.drive_answered fetch 0 (show nextScripted.run unread = (some bits, _) by rw [left]; rfl)
    have longer : (({} : Emulator).drive (program.tape filled fits) nextScripted (fetches + 1)).run inputs =
        ((none, next.answer bits), inputs.drop (requestsWithin program inputs fetches + 1)) := by
      rw [Emulator.drive_add, driven]
      exact one
    rw [stateAfter_of_drive loaded longer, Emulator.answer, Emulator.machine_of_request fetch]

end Runs

/-- A program that is refused requests nothing. -/
theorem requestsWithin_of_refused {program : Program} {error : RunError}
    (refused : Tape.ofProgram? program = .error error) (inputs : List UInt8) (limit : Nat) :
    requestsWithin program inputs limit = 0 := by
  rw [requestsWithin, fetchedStates, stateAfter_of_refused refused]
  rfl

/-- The outcome of a run is that of its stop, with its requests served until then. -/
theorem Emulator.executeScripted_served (program : Program) (inputs : List UInt8) (limit : Nat) :
    ∃ result stop unread,
      Emulator.executeScripted program limit inputs {} =
        ((result, stateAfter program nextScripted inputs limit), unread) ∧
      Served inputs (requestsWithin program inputs limit) stop (stateAfter program nextScripted inputs limit) unread ∧
      ((∃ outcome, result = .ok outcome ∧ outcome.stop = .inputsExhausted) ↔ stop = some .inputsExhausted) := by
  rcases program.refused_or_tape with ⟨error, refused⟩ | ⟨filled, fits, loaded⟩
  · rw [stateAfter_of_refused refused, requestsWithin_of_refused refused]
    refine ⟨.error error, none, inputs, Emulator.executeScripted_refused refused limit inputs {}, .new inputs, ?_⟩
    refine iff_of_false ?_ (fun other => nomatch other)
    rintro ⟨outcome, ok, -⟩
    cases ok
  · obtain ⟨stop, unread, driven⟩ := exists_drive loaded nextScripted inputs limit
    have served := (tapeRun_of_drive loaded driven).1.served
    refine ⟨(stateAfter program nextScripted inputs limit).ending limit stop, stop, unread, ?_, served,
      Emulator.ok_ending_iff⟩
    rw [Emulator.executeScripted, Emulator.execute_new loaded, driven]

/-- The requests of a run from the beginning are answered with the values of its list, one after the other. The run
stops for want of inputs exactly if it makes a request more than there are values, and then none is left; otherwise
those are left that are behind as many values as it made requests. In every state the input registers hold the
bits of the latest answer, and are clear before the first one. A program that is refused takes nothing. -/
theorem requests_take_inputs_in_order (program : Program) (inputs : List UInt8) (limit : Nat) :
    let state := stateAfter program nextScripted inputs
    let requests := requestsWithin program inputs
    ∃ result unread, Emulator.executeScripted program limit inputs {} = ((result, state limit), unread) ∧
      (∀ fetches, fetches < (state limit).steps → (state fetches).requestsInputs program = true → ∀ bits,
        inputs[requests fetches]? = some bits →
          (state (fetches + 1)).machine = (state fetches).machine.loadInputs bits) ∧
      ((∃ outcome, result = .ok outcome ∧ outcome.stop = .inputsExhausted) ↔ inputs.length < requests limit) ∧
      (inputs.length < requests limit → unread = []) ∧
      (requests limit ≤ inputs.length → unread = inputs.drop (requests limit)) ∧
      (∀ index : Fin 8, index.val ≠ 0 → (state limit).machine.inputs.get index =
        (inputs.take (requests limit)).getLast?.any fun bits => bits.toNat.testBit (index.val - 1)) ∧
      (program = [] → result = .error .emptyTape ∧ unread = inputs) ∧
      (tapeCapacity < program.length → result = .error (.tapeTooLong program.length) ∧ unread = inputs) := by
  intro state requests
  obtain ⟨result, stop, unread, call, served, ending⟩ := Emulator.executeScripted_served program inputs limit
  have untouched : ∀ {error : RunError}, Tape.ofProgram? program = .error error →
      result = .error error ∧ unread = inputs := by
    intro error refused
    rw [Emulator.executeScripted_refused refused, Prod.mk.injEq, Prod.mk.injEq] at call
    exact ⟨call.1.1.symm, call.2.symm⟩
  refine ⟨result, unread, call, ?_, ending.trans served.missed_iff, ?_, fun _ => served.unread_eq, served.held,
    ?_, fun large => untouched (Tape.ofProgram?_of_large large)⟩
  · intro fetches further asks bits answer
    rcases program.refused_or_tape with ⟨error, refused⟩ | ⟨filled, fits, loaded⟩
    · have still : state limit = {} := stateAfter_of_refused refused nextScripted inputs limit
      rw [still] at further
      exact absurd further (Nat.not_lt_zero fetches)
    · exact loads_answer loaded further asks answer
  · intro short
    rw [served.unread_eq, List.drop_eq_nil_iff]
    exact Nat.le_of_lt short
  · rintro rfl
    exact untouched rfl

end OneBit
