import OneBit.Proofs.TapeHistory

namespace OneBit

section States

variable {σ : Type} (program : Program) (source : StateM σ (Option UInt8)) (s : σ)

/-- The state of a run after some fetches, which is what the run leaves behind if they are its limit. A run that
has ended before stays where it was. -/
def stateAfter (fetches : Nat) : Emulator :=
  ((({} : Emulator).execute program fetches source).run s).1.2

/-- The states from which a run under a limit fetched its instructions, first one first. -/
def fetchedStates (limit : Nat) : List Emulator :=
  (List.range (stateAfter program source s limit).steps).map (stateAfter program source s)

end States

/-- A run from the beginning, as far as it has come: the states from which it fetched, whether it has stopped and
how, its state, and the state of its source of inputs. -/
inductive TapeRun (tape : Tape) {σ : Type} (source : StateM σ (Option UInt8)) (s : σ) :
    List Emulator → Option Stop → Emulator → σ → Prop
  | new : TapeRun tape source s [] none {} s
  | went {past e next t} : TapeRun tape source s past none e t → e.fetch tape = .went next →
      TapeRun tape source s (past ++ [e]) none next t
  | answered {past e next t t' bits} : TapeRun tape source s past none e t → e.fetch tape = .request next →
      source.run t = (some bits, t') → TapeRun tape source s (past ++ [e]) none (next.answer bits) t'
  | halted {past e last t} : TapeRun tape source s past none e t → e.fetch tape = .halt last →
      TapeRun tape source s (past ++ [e]) (some .halted) last t
  | unanswered {past e last t t'} : TapeRun tape source s past none e t → e.fetch tape = .request last →
      source.run t = (none, t') → TapeRun tape source s (past ++ [e]) (some .inputsExhausted) last t'

theorem Emulator.StepsTo.of_fetch {tape : Tape} {e next : Emulator} (fetch : (e.fetch tape).emulator = next) :
    e.StepsTo tape next := fetch ▸ .fetched

section Runs

variable {tape : Tape} {σ : Type} {source : StateM σ (Option UInt8)} {s t : σ} {past : List Emulator}
  {stop : Option Stop} {e : Emulator}

/-- Forgetting the source leaves a history. -/
theorem TapeRun.history (run : TapeRun tape source s past stop e t) {limit : Nat} (within : e.steps ≤ limit) :
    TapeHistory tape limit past e := by
  -- A fetch counts, so there was room for it in a limit that covers the state behind it.
  have step : ∀ {past : List Emulator} {e next : Emulator},
      (e.steps ≤ limit → TapeHistory tape limit past e) → e.StepsTo tape next → next.steps ≤ limit →
      TapeHistory tape limit (past ++ [e]) next := by
    intro past e next earlier moved within
    have counted := moved.steps
    exact (earlier (by omega)).step (by omega) moved
  induction run with
  | new => exact .new
  | went _ fetch ih => exact step ih (.of_fetch (by rw [fetch]; rfl)) within
  | answered _ fetch _ ih => exact step ih (.answered fetch) within
  | halted _ fetch ih => exact step ih (.of_fetch (by rw [fetch]; rfl)) within
  | unanswered _ fetch _ ih => exact step ih (.of_fetch (by rw [fetch]; rfl)) within

/-- One more fetch of a run that has not stopped. -/
theorem TapeRun.drive_one (run : TapeRun tape source s past none e t) {last : Emulator} {t' : σ}
    (driven : (e.drive tape source 1).run t = ((stop, last), t')) :
    TapeRun tape source s (past ++ [e]) stop last t' ∧ last.steps = e.steps + 1 := by
  cases fetch : e.fetch tape with
  | went next =>
    rw [Emulator.drive_went fetch, Emulator.drive_zero] at driven
    cases driven
    exact ⟨.went run fetch, Emulator.steps_of_fetch (by rw [fetch]; rfl)⟩
  | halt next =>
    rw [Emulator.drive_halt fetch] at driven
    cases driven
    exact ⟨.halted run fetch, Emulator.steps_of_fetch (by rw [fetch]; rfl)⟩
  | request next =>
    have count : next.steps = e.steps + 1 := Emulator.steps_of_fetch (by rw [fetch]; rfl)
    cases asked : source.run t with
    | mk answer left =>
      cases answer with
      | none =>
        rw [Emulator.drive_unanswered fetch _ asked] at driven
        cases driven
        exact ⟨.unanswered run fetch asked, count⟩
      | some bits =>
        rw [Emulator.drive_answered fetch _ asked, Emulator.drive_zero] at driven
        cases driven
        exact ⟨.answered run fetch asked, count⟩

end Runs

section Programs

variable {program : Program} {tape : Tape} {σ : Type} {source : StateM σ (Option UInt8)} {s : σ}

theorem Tape.ofProgram?_of_large {program : Program} (large : tapeCapacity < program.length) :
    Tape.ofProgram? program = .error (.tapeTooLong program.length) := by
  have nonempty : 0 < program.toArray.size := Nat.lt_of_le_of_lt (Nat.zero_le tapeCapacity) large
  have beyond : ¬program.toArray.size ≤ tapeCapacity := Nat.not_le.mpr large
  rw [Tape.ofProgram?, dif_pos nonempty, dif_neg beyond]
  rfl

theorem Program.refused_or_tape (program : Program) :
    (∃ error, Tape.ofProgram? program = .error error) ∨ ∃ filled fits,
      Tape.ofProgram? program = .ok (program.tape filled fits) := by
  by_cases filled : program = []
  · subst filled
    exact Or.inl ⟨.emptyTape, rfl⟩
  by_cases fits : program.length ≤ tapeCapacity
  · exact Or.inr ⟨filled, fits, Tape.ofProgram?_of_fits filled fits⟩
  · exact Or.inl ⟨_, Tape.ofProgram?_of_large (Nat.not_le.mp fits)⟩

/-- The outcome of a call shows the registers that it leaves behind. -/
theorem Emulator.machine_of_ok {limit : Nat} {e : Emulator} {outcome : Outcome}
    (ok : ((e.execute program limit source).run s).1.1 = .ok outcome) :
    outcome.machine = ((e.execute program limit source).run s).1.2.machine := by
  cases loaded : Tape.ofProgram? program with
  | error error =>
    rw [Emulator.execute_refused loaded] at ok
    cases ok
  | ok tape =>
    rw [Emulator.execute_run loaded] at ok ⊢
    generalize (e.drive tape source (limit - e.steps)).run s = ended at ok ⊢
    obtain ⟨⟨stop, last⟩, left⟩ := ended
    cases stop with
    | none => cases ok
    | some reason =>
      cases ok
      rfl

/-- The whole limit is left to an emulator that has fetched nothing yet. -/
theorem Emulator.execute_new (loaded : Tape.ofProgram? program = .ok tape) (limit : Nat)
    (source : StateM σ (Option UInt8)) (s : σ) :
    ((({} : Emulator).execute program limit source).run s) =
      match (({} : Emulator).drive tape source limit).run s with
      | ((stop, last), s') => ((last.ending limit stop, last), s') :=
  Emulator.execute_run loaded limit source {} s

theorem stateAfter_of_refused {error : RunError} (refused : Tape.ofProgram? program = .error error)
    (source : StateM σ (Option UInt8)) (s : σ) (fetches : Nat) : stateAfter program source s fetches = {} := by
  rw [stateAfter, Emulator.execute_refused refused]

theorem stateAfter_of_drive (loaded : Tape.ofProgram? program = .ok tape) {fetches : Nat} {stop : Option Stop}
    {e : Emulator} {t : σ} (driven : (({} : Emulator).drive tape source fetches).run s = ((stop, e), t)) :
    stateAfter program source s fetches = e := by
  rw [stateAfter, Emulator.execute_new loaded, driven]

/-- Behind some fetches a run has stopped or not, and its source has come to some state. -/
theorem exists_drive (loaded : Tape.ofProgram? program = .ok tape) (source : StateM σ (Option UInt8)) (s : σ)
    (fetches : Nat) :
    ∃ stop t, (({} : Emulator).drive tape source fetches).run s =
      ((stop, stateAfter program source s fetches), t) := by
  cases driven : (({} : Emulator).drive tape source fetches).run s with
  | mk ended t =>
    obtain ⟨stop, e⟩ := ended
    exact ⟨stop, t, by rw [stateAfter_of_drive loaded driven]⟩

theorem fetchedStates_succ {fetches : Nat} (here : (stateAfter program source s fetches).steps = fetches)
    (next : (stateAfter program source s (fetches + 1)).steps = fetches + 1) :
    fetchedStates program source s (fetches + 1) =
      fetchedStates program source s fetches ++ [stateAfter program source s fetches] := by
  rw [fetchedStates, fetchedStates, here, next, List.range_succ, List.map_append, List.map_singleton]

/-- The run that a program makes under a limit. If it has not stopped, it has spent the limit. -/
theorem tapeRun_of_drive (loaded : Tape.ofProgram? program = .ok tape) {limit : Nat} {stop : Option Stop}
    {e : Emulator} {t : σ} (driven : (({} : Emulator).drive tape source limit).run s = ((stop, e), t)) :
    TapeRun tape source s (fetchedStates program source s limit) stop e t ∧ e.steps ≤ limit ∧
      (stop = none → e.steps = limit) := by
  induction limit generalizing stop e t with
  | zero =>
    have here := stateAfter_of_drive loaded driven
    rw [Emulator.drive_zero] at driven
    cases driven
    rw [fetchedStates, here]
    exact ⟨.new, Nat.le_refl 0, fun _ => rfl⟩
  | succ limit ih =>
    have here := stateAfter_of_drive loaded driven
    obtain ⟨earlier, t₀, before⟩ := exists_drive loaded source s limit
    obtain ⟨run, within, spent⟩ := ih before
    rw [Emulator.drive_add, before] at driven
    cases earlier with
    | some reason =>
      cases driven
      rw [fetchedStates, here]
      exact ⟨run, by omega, fun other => nomatch other⟩
    | none =>
      obtain ⟨longer, count⟩ := run.drive_one driven
      have before_count := spent rfl
      rw [before_count] at count
      rw [fetchedStates_succ before_count (by rw [here, count])]
      exact ⟨longer, by omega, fun _ => count⟩

theorem tapeHistory_of_run (loaded : Tape.ofProgram? program = .ok tape) (source : StateM σ (Option UInt8)) (s : σ)
    (limit : Nat) :
    TapeHistory tape limit (fetchedStates program source s limit) (stateAfter program source s limit) := by
  obtain ⟨stop, t, driven⟩ := exists_drive loaded source s limit
  obtain ⟨run, within, -⟩ := tapeRun_of_drive loaded driven
  exact run.history within

/-- A program that is refused never leaves the beginning. -/
theorem fetchedStates_cases (program : Program) (source : StateM σ (Option UInt8)) (s : σ) (limit : Nat) :
    (fetchedStates program source s limit = [] ∧ stateAfter program source s limit = {}) ∨ ∃ filled fits,
      TapeHistory (program.tape filled fits) limit (fetchedStates program source s limit)
        (stateAfter program source s limit) := by
  rcases program.refused_or_tape with ⟨error, refused⟩ | ⟨filled, fits, loaded⟩
  · have still := stateAfter_of_refused refused source s limit
    exact Or.inl ⟨by rw [fetchedStates, still]; rfl, still⟩
  · exact Or.inr ⟨filled, fits, tapeHistory_of_run loaded source s limit⟩

/-- A run that fetches further has not stopped yet. -/
theorem exists_drive_before (loaded : Tape.ofProgram? program = .ok tape) {fetches limit : Nat}
    (further : fetches < (stateAfter program source s limit).steps) :
    ∃ t, (({} : Emulator).drive tape source fetches).run s =
      ((none, stateAfter program source s fetches), t) := by
  obtain ⟨stop, t, driven⟩ := exists_drive loaded source s fetches
  cases stop with
  | none => exact ⟨t, driven⟩
  | some reason =>
    obtain ⟨later, t', whole⟩ := exists_drive loaded source s limit
    have small := (tapeRun_of_drive loaded driven).2.1
    have large := (tapeRun_of_drive loaded whole).2.1
    obtain ⟨rest, rfl⟩ := Nat.exists_eq_add_of_le (show fetches ≤ limit by omega)
    rw [Emulator.drive_add, driven, Prod.mk.injEq, Prod.mk.injEq] at whole
    obtain ⟨⟨-, same⟩, -⟩ := whole
    rw [← same] at further
    omega

end Programs

end OneBit
