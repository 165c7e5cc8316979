import Mathlib.Data.Fintype.BigOperators
import Mathlib.Data.Fintype.Pigeonhole
import OneBit.Proofs.Lockstep
import OneBit.Proofs.RunStates

namespace OneBit

/-- Emulators that are the same but for how many instructions they have fetched. -/
structure Emulator.SameButSteps (e e' : Emulator) : Prop where
  machine : e'.machine = e.machine
  position : e'.position = e.position

/-- No fetch looks at the count. -/
theorem Emulator.lockstep_sameButSteps (tape : Tape) : Lockstep tape tape Emulator.SameButSteps := by
  intro e e' same
  have moved : ∀ m : Machine, Emulator.SameButSteps ⟨m, (e.position + 1) % tape.size, e.steps + 1⟩
      ⟨m, (e.position + 1) % tape.size, e'.steps + 1⟩ := fun _ => ⟨rfl, rfl⟩
  unfold Emulator.fetch
  rw [same.machine, same.position]
  dsimp only
  split
  · exact .went (moved _)
  · split
    · split
      · exact .halt (moved _)
      · exact .request (moved _) (fun bits => moved (e.machine.loadInputs bits))
    · exact .went (moved _)

/-- The bits of a machine that are not loaded from outside: five flags, the scratch bits and the outputs. -/
abbrev Memory := (Bool × Bool × Bool × Bool × Bool) × (Fin 8 → Bool) × (Fin 8 → Bool)

def Machine.memory (m : Machine) : Memory :=
  ((m.inputEnable, m.outputEnable, m.skip, m.result, m.carry), m.scratch.get, m.outputs.get)

theorem card_memory : Fintype.card Memory = 2 ^ 21 := by
  simp only [Fintype.card_prod, Fintype.card_fun, Fintype.card_bool, Fintype.card_fin]
  rfl

theorem Bank.eq_of_get {bank bank' : Bank} (same : bank'.get = bank.get) : bank' = bank := by
  apply Vector.ext
  intro k inside
  exact congrFun same ⟨k, inside⟩

/-- Besides the inputs a machine holds its memory and nothing else. -/
theorem Machine.eq_of_memory {m m' : Machine} (same : m'.memory = m.memory) (inputs : m'.inputs = m.inputs) : m' = m := by
  cases m
  cases m'
  simp only [Machine.memory, Prod.mk.injEq] at same
  obtain ⟨⟨rfl, rfl, rfl, rfl, rfl⟩, scratch, outputs⟩ := same
  cases Bank.eq_of_get scratch
  cases Bank.eq_of_get outputs
  cases inputs
  rfl

section Drive

variable {tape : Tape} {initial e last : Emulator} {inputs unread : List UInt8} {fetches : Nat}

theorem TapeReach.inputs_of_nothing_taken {taken : List UInt8} (reach : TapeReach tape initial taken fetches e)
    (nothing : taken = []) : e.machine.inputs = initial.machine.inputs := by
  induction reach with
  | start => rfl
  | @went taken fetches e next _ fetch ih =>
    rw [← ih nothing, ← e.inputs_after_fetch tape, fetch, Fetch.emulator]
  | answered _ _ _ => simp only [List.append_eq_nil_iff, List.cons_ne_self, and_false] at nothing

theorem TapeReach.position_lt {taken : List UInt8} (reach : TapeReach tape initial taken fetches e)
    (inside : initial.position < tape.size) : e.position < tape.size := by
  have around : ∀ {e next : Emulator}, e.StepsTo tape next → next.position < tape.size := by
    intro e next step
    rw [step.position]
    exact Nat.mod_lt _ tape.nonempty
  cases reach with
  | start => exact inside
  | went _ fetch => exact around (.of_fetch (by rw [fetch, Fetch.emulator]))
  | answered _ fetch => exact around (.answered fetch)

theorem Emulator.goes_on_before {budget : Nat} (goes : (e.driveScripted tape budget inputs).1.1 = none)
    (within : fetches ≤ budget) : ∃ last unread, e.driveScripted tape fetches inputs = ((none, last), unread) := by
  cases run : e.driveScripted tape fetches inputs with
  | mk ended unread =>
    obtain ⟨stop, last⟩ := ended
    cases stop with
    | none => exact ⟨last, unread, rfl⟩
    | some reason =>
      rw [Emulator.driveScripted_mono run within] at goes
      cases goes

/-- A run that comes back to where it was, with nothing taken in between, goes on for ever. -/
theorem Emulator.goes_on_of_return (positive : 0 < fetches)
    (back : e.driveScripted tape fetches inputs = ((none, last), inputs)) (same : e.SameButSteps last) (budget : Nat) :
    (e.driveScripted tape budget inputs).1.1 = none := by
  induction budget using Nat.strong_induction_on with
  | _ budget ih =>
    by_cases within : budget ≤ fetches
    · obtain ⟨middle, unread, run⟩ := Emulator.goes_on_before (by rw [back]) within
      rw [run]
    · obtain ⟨rest, rfl⟩ := Nat.exists_eq_add_of_le (Nat.le_of_not_le within)
      -- What is left of the budget is spent from a state that differs in its count only.
      obtain ⟨stop, end₁, end₂, unread, run, run', -⟩ :=
        (Emulator.lockstep_sameButSteps tape).drive same nextScripted rest inputs
      have earlier := ih rest (by omega)
      rw [Emulator.driveScripted, run] at earlier
      rw [Emulator.driveScripted_add, back]
      change ((last.drive tape nextScripted rest).run inputs).1.1 = none
      rw [run']
      exact earlier

/-- Two states of a run with as many inputs left, one position and one memory differ in their count only. -/
theorem Emulator.sameButSteps_of_memory {unread' : List UInt8}
    (run : e.driveScripted tape fetches unread = ((none, last), unread')) (left : unread'.length = unread.length)
    (position : last.position = e.position) (memory : last.machine.memory = e.machine.memory) :
    unread' = unread ∧ e.SameButSteps last := by
  obtain ⟨taken, split, reach⟩ := TapeReach.of_driveScripted run
  have nothing : taken = [] := by
    have lengths := congrArg List.length split
    rw [List.length_append] at lengths
    exact List.length_eq_zero_iff.mp (by omega)
  refine ⟨by rw [split, nothing, List.nil_append], ?_, position⟩
  exact Machine.eq_of_memory memory (reach.inputs_of_nothing_taken nothing)

/-- A run that goes on for more fetches than there are states comes back to one of them. -/
theorem Emulator.exists_return {limit : Nat} (large : (inputs.length + 1) * tape.size * 2 ^ 21 ≤ limit)
    (goes : (({} : Emulator).driveScripted tape limit inputs).1.1 = none) :
    ∃ before fetches e last unread, 0 < fetches ∧
      ({} : Emulator).driveScripted tape before inputs = ((none, e), unread) ∧
      e.driveScripted tape fetches unread = ((none, last), unread) ∧ e.SameButSteps last := by
  let state := fun fetches => ({} : Emulator).driveScripted tape fetches inputs
  let seen := fun fetches =>
    ((state fetches).2.length, (state fetches).1.2.position, (state fetches).1.2.machine.memory)
  let all : Finset (Nat × Nat × Memory) :=
    Finset.range (inputs.length + 1) ×ˢ Finset.range tape.size ×ˢ Finset.univ
  have few : all.card < (Finset.range (limit + 1)).card := by
    rw [Finset.card_product, Finset.card_product, Finset.card_range, Finset.card_range, Finset.card_univ, card_memory,
      Finset.card_range, ← Nat.mul_assoc]
    exact Nat.lt_succ_of_le large
  have inside : ∀ fetches ∈ Finset.range (limit + 1), seen fetches ∈ all := by
    intro fetches within
    obtain ⟨e, unread, run⟩ := Emulator.goes_on_before goes (Nat.lt_succ_iff.mp (Finset.mem_range.mp within))
    obtain ⟨taken, split, reach⟩ := TapeReach.of_driveScripted run
    have lengths := congrArg List.length split
    rw [List.length_append] at lengths
    have position := reach.position_lt tape.nonempty
    simp only [seen, state, run, all, Finset.mem_product, Finset.mem_range, Finset.mem_univ, and_true]
    exact ⟨by omega, position⟩
  obtain ⟨i, reached, j, reached', apart, same⟩ := Finset.exists_ne_map_eq_of_card_lt_of_maps_to few inside
  obtain ⟨before, after, order, within, same⟩ :
      ∃ before after, before < after ∧ after ≤ limit ∧ seen after = seen before := by
    rw [Finset.mem_range, Nat.lt_succ_iff] at reached reached'
    rcases Nat.lt_or_gt_of_ne apart with first | first
    · exact ⟨i, j, first, reached', same.symm⟩
    · exact ⟨j, i, first, reached, same⟩
  obtain ⟨fetches, rfl⟩ := Nat.exists_eq_add_of_le order.le
  obtain ⟨e, unread, run⟩ := Emulator.goes_on_before goes (show before ≤ limit by omega)
  obtain ⟨last, unread', run'⟩ := Emulator.goes_on_before goes within
  simp only [seen, state, run, run', Prod.mk.injEq] at same
  obtain ⟨left, position, memory⟩ := same
  rw [Emulator.driveScripted_add, run] at run'
  obtain ⟨rfl, same⟩ := Emulator.sameButSteps_of_memory run' left position memory
  exact ⟨before, fetches, e, last, unread', by omega, run, run', same⟩

/-- A run that goes on for more fetches than there are states goes on for ever. -/
theorem Emulator.goes_on_for_ever {limit : Nat} (large : (inputs.length + 1) * tape.size * 2 ^ 21 ≤ limit)
    (goes : (({} : Emulator).driveScripted tape limit inputs).1.1 = none) (other : Nat) :
    (({} : Emulator).driveScripted tape other inputs).1.1 = none := by
  obtain ⟨before, fetches, e, last, unread, positive, run, back, same⟩ := Emulator.exists_return large goes
  have further : (({} : Emulator).driveScripted tape (before + other) inputs).1.1 = none := by
    rw [Emulator.driveScripted_add, run]
    exact Emulator.goes_on_of_return positive back same other
  obtain ⟨end₁, left, run⟩ := Emulator.goes_on_before further (Nat.le_add_left other before)
  rw [run]

end Drive

theorem Tape.ofProgram?_ne_limit {program : Program} {error : RunError}
    (refused : Tape.ofProgram? program = .error error) (limit : Nat) : error ≠ .stepLimitExceeded limit := by
  rintro rfl
  simp only [Tape.ofProgram?] at refused
  split at refused
  · split at refused <;> simp at refused
  · simp at refused

theorem run_eq_limit_iff {program : Program} {tape : Tape} (loaded : Tape.ofProgram? program = .ok tape)
    (inputs : List UInt8) (limit : Nat) : run program inputs limit = .error (.stepLimitExceeded limit) ↔
      (({} : Emulator).driveScripted tape limit inputs).1.1 = none := by
  rw [run, Emulator.executeScripted, Emulator.execute_new loaded, ← Emulator.driveScripted]
  cases ({} : Emulator).driveScripted tape limit inputs with
  | mk ended unread =>
    obtain ⟨stop, last⟩ := ended
    cases stop with
    | none => exact iff_of_true rfl rfl
    | some reason =>
      refine iff_of_false ?_ ?_
      · intro other
        cases other
      · intro other
        cases other

/-- A budget of `2 ^ 21` fetches for each position of the tape, and that once more for each value of the inputs, decides
whether a run stops: if it is too small, every budget is. -/
theorem exceeds_every_limit {program : Program} {inputs : List UInt8} {limit : Nat}
    (large : (inputs.length + 1) * program.length * 2 ^ 21 ≤ limit)
    (exceeded : run program inputs limit = .error (.stepLimitExceeded limit)) (other : Nat) :
    run program inputs other = .error (.stepLimitExceeded other) := by
  rcases program.refused_or_tape with ⟨error, refused⟩ | ⟨filled, fits, loaded⟩
  · rw [run, Emulator.executeScripted_refused refused, Except.error.injEq] at exceeded
    exact absurd exceeded (Tape.ofProgram?_ne_limit refused limit)
  · rw [← program.size_tape filled fits] at large
    rw [run_eq_limit_iff loaded] at exceeded ⊢
    exact Emulator.goes_on_for_ever large exceeded other

/-- The last instruction is skipped on every way around the tape, so that the run neither takes the one value of its
inputs nor halts. -/
theorem exceeds_every_limit_around_skip :
    let program := Program.decode [0xD0, 0xF0]
    (([5] : List UInt8).length + 1) * program.length * 2 ^ 21 ≤ 2 ^ 23 ∧
      run program [5] (2 ^ 23) = .error (.stepLimitExceeded (2 ^ 23)) ∧
      ∀ other, run program [5] other = .error (.stepLimitExceeded other) := by
  obtain ⟨filled, fits, back⟩ : ∃ filled fits, ({} : Emulator).driveScripted
      (Program.tape (.decode [0xD0, 0xF0]) filled fits) 2 [5] = ((none, { steps := 2 }), [5]) :=
    ⟨by decide, by decide, rfl⟩
  have loaded := Tape.ofProgram?_of_fits filled fits
  have large : (([5] : List UInt8).length + 1) * (Program.decode [0xD0, 0xF0]).length * 2 ^ 21 ≤ 2 ^ 23 := by decide
  have exceeded := (run_eq_limit_iff loaded [5] (2 ^ 23)).mpr (Emulator.goes_on_of_return Nat.two_pos back ⟨rfl, rfl⟩ _)
  exact ⟨large, exceeded, exceeds_every_limit large exceeded⟩

end OneBit
