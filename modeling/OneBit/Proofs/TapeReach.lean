import OneBit.Emulator

namespace OneBit

/-- The states of a run between fetches. A list holds the values that were taken to answer requests, first
one first, and a number counts the fetches. -/
inductive TapeReach (tape : Tape) (initial : Emulator) : List UInt8 → Nat → Emulator → Prop
  | start : TapeReach tape initial [] 0 initial
  | went {taken fetches e next} : TapeReach tape initial taken fetches e → e.fetch tape = .went next →
      TapeReach tape initial taken (fetches + 1) next
  | answered {taken fetches e next bits} : TapeReach tape initial taken fetches e →
      e.fetch tape = .request next → TapeReach tape initial (taken ++ [bits]) (fetches + 1) (next.answer bits)

/-- How a run stops at a fetch. A request stops it if it is not answered. -/
inductive TapeStop (tape : Tape) (e : Emulator) : Stop → Emulator → Prop
  | halted {last} : e.fetch tape = .halt last → TapeStop tape e .halted last
  | inputsExhausted {last} : e.fetch tape = .request last → TapeStop tape e .inputsExhausted last

variable {tape : Tape}

theorem TapeReach.trans {initial middle last : Emulator} {taken later : List UInt8} {fetches more : Nat}
    (before : TapeReach tape initial taken fetches middle) (after : TapeReach tape middle later more last) :
    TapeReach tape initial (taken ++ later) (fetches + more) last := by
  induction after with
  | start => simpa only [List.append_nil, Nat.add_zero] using before
  | went _ fetch ih => exact .went ih fetch
  | answered _ fetch ih =>
    rw [← List.append_assoc]
    exact .answered ih fetch

theorem Emulator.steps_of_fetch {e : Emulator} {next : Emulator} (fetched : (e.fetch tape).emulator = next) :
    next.steps = e.steps + 1 := by
  rw [← fetched, Emulator.fetch_steps]

theorem TapeReach.steps_eq {initial e : Emulator} {taken : List UInt8} {fetches : Nat}
    (reach : TapeReach tape initial taken fetches e) : e.steps = initial.steps + fetches := by
  induction reach with
  | start => rfl
  | @went taken fetches e next _ fetch ih =>
    have step : next.steps = e.steps + 1 := Emulator.steps_of_fetch (by rw [fetch, Fetch.emulator])
    omega
  | @answered taken fetches e next bits _ fetch ih =>
    have step : next.steps = e.steps + 1 := Emulator.steps_of_fetch (by rw [fetch, Fetch.emulator])
    have kept : (next.answer bits).steps = next.steps := rfl
    omega

theorem TapeStop.steps_eq {e last : Emulator} {stop : Stop} (ends : TapeStop tape e stop last) :
    last.steps = e.steps + 1 := by
  cases ends with
  | halted fetch => exact Emulator.steps_of_fetch (by rw [fetch, Fetch.emulator])
  | inputsExhausted fetch => exact Emulator.steps_of_fetch (by rw [fetch, Fetch.emulator])

section Sources

variable {σ : Type} {source : StateM σ (Option UInt8)}

theorem Emulator.drive_zero (e : Emulator) (s : σ) : (e.drive tape source 0).run s = ((none, e), s) := rfl

theorem Emulator.drive_went {e next : Emulator} (fetch : e.fetch tape = .went next) (budget : Nat) (s : σ) :
    (e.drive tape source (budget + 1)).run s = (next.drive tape source budget).run s := by
  rw [Emulator.drive, fetch]

theorem Emulator.drive_halt {e last : Emulator} (fetch : e.fetch tape = .halt last) (budget : Nat) (s : σ) :
    (e.drive tape source (budget + 1)).run s = ((some .halted, last), s) := by
  rw [Emulator.drive, fetch]
  rfl

theorem Emulator.drive_unanswered {e last : Emulator} (fetch : e.fetch tape = .request last) (budget : Nat)
    {s s' : σ} (asked : source.run s = (none, s')) :
    (e.drive tape source (budget + 1)).run s = ((some .inputsExhausted, last), s') := by
  rw [Emulator.drive, fetch]
  dsimp only
  rw [StateT.run_bind, asked]
  rfl

theorem Emulator.drive_answered {e next : Emulator} (fetch : e.fetch tape = .request next) (budget : Nat)
    {s s' : σ} {bits : UInt8} (asked : source.run s = (some bits, s')) :
    (e.drive tape source (budget + 1)).run s = ((next.answer bits).drive tape source budget).run s' := by
  rw [Emulator.drive, fetch]
  dsimp only
  rw [StateT.run_bind, asked]
  rfl

/-- A budget may be spent in two parts: the second part goes on where the first was used up. -/
theorem Emulator.drive_add (budget more : Nat) (e : Emulator) (s : σ) :
    (e.drive tape source (budget + more)).run s = match (e.drive tape source budget).run s with
      | ((none, last), s') => (last.drive tape source more).run s'
      | ended => ended := by
  induction budget generalizing e s with
  | zero => rw [Emulator.drive_zero, Nat.zero_add]
  | succ budget ih =>
    rw [Nat.add_right_comm]
    cases fetch : e.fetch tape with
    | went next => rw [drive_went fetch, drive_went fetch, ih]
    | halt last => rw [drive_halt fetch, drive_halt fetch]
    | request next =>
      cases asked : source.run s with
      | mk answer s' =>
        cases answer with
        | none => rw [drive_unanswered fetch _ asked, drive_unanswered fetch _ asked]
        | some bits => rw [drive_answered fetch _ asked, drive_answered fetch _ asked, ih]

end Sources

/-- Drives an emulator with the inputs of a list, and leaves those that were not taken. -/
def Emulator.driveScripted (tape : Tape) (budget : Nat) (e : Emulator) (inputs : List UInt8) :
    (Option Stop × Emulator) × List UInt8 :=
  (e.drive tape nextScripted budget).run inputs

theorem Emulator.driveScripted_went {e next : Emulator} (fetch : e.fetch tape = .went next) (budget : Nat)
    (inputs : List UInt8) :
    e.driveScripted tape (budget + 1) inputs = next.driveScripted tape budget inputs :=
  Emulator.drive_went fetch budget inputs

theorem Emulator.driveScripted_halt {e last : Emulator} (fetch : e.fetch tape = .halt last) (budget : Nat)
    (inputs : List UInt8) :
    e.driveScripted tape (budget + 1) inputs = ((some .halted, last), inputs) :=
  Emulator.drive_halt fetch budget inputs

theorem Emulator.driveScripted_request_nil {e last : Emulator} (fetch : e.fetch tape = .request last)
    (budget : Nat) : e.driveScripted tape (budget + 1) [] = ((some .inputsExhausted, last), []) :=
  Emulator.drive_unanswered fetch budget rfl

theorem Emulator.driveScripted_request_cons {e next : Emulator} (fetch : e.fetch tape = .request next)
    (budget : Nat) (bits : UInt8) (inputs : List UInt8) :
    e.driveScripted tape (budget + 1) (bits :: inputs) =
      (next.answer bits).driveScripted tape budget inputs :=
  Emulator.drive_answered fetch budget rfl

theorem Emulator.driveScripted_add (budget more : Nat) (e : Emulator) (inputs : List UInt8) :
    e.driveScripted tape (budget + more) inputs = match e.driveScripted tape budget inputs with
      | ((none, last), unread) => last.driveScripted tape more unread
      | ended => ended := by
  rw [Emulator.driveScripted, Emulator.drive_add, Emulator.driveScripted]
  obtain ⟨⟨stop, last⟩, unread⟩ := (e.drive tape nextScripted budget).run inputs
  cases stop with
  | none => rfl
  | some stop => rfl

theorem Emulator.driveScripted_of_reach {e last : Emulator} {taken : List UInt8} {fetches : Nat}
    (reach : TapeReach tape e taken fetches last) (unread : List UInt8) :
    e.driveScripted tape fetches (taken ++ unread) = ((none, last), unread) := by
  induction reach generalizing unread with
  | start => rfl
  | @went taken fetches e next _ fetch ih =>
    rw [Emulator.driveScripted_add, ih]
    exact Emulator.driveScripted_went fetch 0 unread
  | @answered taken fetches e next bits _ fetch ih =>
    rw [Emulator.driveScripted_add, List.append_assoc, ih]
    exact Emulator.driveScripted_request_cons fetch 0 bits unread

/-- Whatever budget and inputs are left behind some fetches is left to the state that they lead to. -/
theorem Emulator.driveScripted_after {e last : Emulator} {taken : List UInt8} {fetches : Nat}
    (reach : TapeReach tape e taken fetches last) (more : Nat) (unread : List UInt8) :
    e.driveScripted tape (fetches + more) (taken ++ unread) = last.driveScripted tape more unread := by
  rw [Emulator.driveScripted_add, Emulator.driveScripted_of_reach reach]

theorem TapeReach.of_driveScripted {e last : Emulator} {budget : Nat} {inputs unread : List UInt8}
    (run : e.driveScripted tape budget inputs = ((none, last), unread)) :
    ∃ taken, inputs = taken ++ unread ∧ TapeReach tape e taken budget last := by
  induction budget generalizing e inputs with
  | zero =>
    cases run
    exact ⟨[], rfl, .start⟩
  | succ budget ih =>
    cases fetch : e.fetch tape with
    | went next =>
      rw [Emulator.driveScripted_went fetch] at run
      obtain ⟨taken, split, reach⟩ := ih run
      refine ⟨taken, split, ?_⟩
      rw [Nat.add_comm]
      exact (TapeReach.start.went fetch).trans reach
    | halt last =>
      rw [Emulator.driveScripted_halt fetch] at run
      cases run
    | request next =>
      cases inputs with
      | nil =>
        rw [Emulator.driveScripted_request_nil fetch] at run
        cases run
      | cons bits inputs =>
        rw [Emulator.driveScripted_request_cons fetch] at run
        obtain ⟨taken, split, reach⟩ := ih run
        refine ⟨bits :: taken, by rw [split, List.cons_append], ?_⟩
        rw [Nat.add_comm]
        exact (TapeReach.start.answered fetch).trans reach

/-- A run that stops within its budget does so at a fetch after some others, and if it is for want of inputs
there are none left. -/
theorem TapeStop.of_driveScripted {e last : Emulator} {budget : Nat} {inputs unread : List UInt8} {stop : Stop}
    (run : e.driveScripted tape budget inputs = ((some stop, last), unread)) :
    ∃ taken fetches before, fetches < budget ∧ inputs = taken ++ unread ∧
      TapeReach tape e taken fetches before ∧ TapeStop tape before stop last ∧
      (stop = .inputsExhausted → unread = []) := by
  induction budget generalizing e inputs with
  | zero => cases run
  | succ budget ih =>
    cases fetch : e.fetch tape with
    | went next =>
      rw [Emulator.driveScripted_went fetch] at run
      obtain ⟨taken, fetches, before, within, split, reach, ends, left⟩ := ih run
      refine ⟨taken, 1 + fetches, before, by omega, split, ?_, ends, left⟩
      exact (TapeReach.start.went fetch).trans reach
    | halt last =>
      rw [Emulator.driveScripted_halt fetch] at run
      cases run
      exact ⟨[], 0, e, by omega, rfl, .start, .halted fetch, fun other => nomatch other⟩
    | request next =>
      cases inputs with
      | nil =>
        rw [Emulator.driveScripted_request_nil fetch] at run
        cases run
        exact ⟨[], 0, e, by omega, rfl, .start, .inputsExhausted fetch, fun _ => rfl⟩
      | cons bits inputs =>
        rw [Emulator.driveScripted_request_cons fetch] at run
        obtain ⟨taken, fetches, before, within, split, reach, ends, left⟩ := ih run
        refine ⟨bits :: taken, 1 + fetches, before, by omega, by rw [split, List.cons_append], ?_, ends, left⟩
        exact (TapeReach.start.answered fetch).trans reach

end OneBit
