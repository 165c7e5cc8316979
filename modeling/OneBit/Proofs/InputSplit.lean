import Mathlib.Data.Nat.Init
import OneBit.Proofs.MachineStep
import OneBit.Proofs.StepBudget

namespace OneBit

variable {tape : Tape}

/-- Inputs behind those that a run takes make no difference to it, unless it stops for want of inputs. -/
theorem Emulator.driveScripted_append {e last : Emulator} {budget : Nat} {inputs unread : List UInt8}
    {stop : Option Stop} (run : e.driveScripted tape budget inputs = ((stop, last), unread))
    (served : stop ≠ some .inputsExhausted) (more : List UInt8) :
    e.driveScripted tape budget (inputs ++ more) = ((stop, last), unread ++ more) := by
  cases stop with
  | none =>
    obtain ⟨taken, rfl, reach⟩ := TapeReach.of_driveScripted run
    rw [List.append_assoc]
    exact Emulator.driveScripted_of_reach reach (unread ++ more)
  | some reason =>
    obtain ⟨taken, fetches, before, within, rfl, reach, ends, -⟩ := TapeStop.of_driveScripted run
    obtain ⟨rest, rfl⟩ := Nat.exists_eq_add_of_lt within
    cases ends with
    | halted fetch =>
      rw [List.append_assoc, Nat.add_assoc, Emulator.driveScripted_after reach]
      exact Emulator.driveScripted_halt fetch rest (unread ++ more)
    | inputsExhausted fetch => exact absurd rfl served

/-- A run that stopped for want of inputs goes on behind its last request, if the inputs go on with an answer. -/
theorem Emulator.driveScripted_resume {e last : Emulator} {budget : Nat} {inputs unread : List UInt8}
    (run : e.driveScripted tape budget inputs = ((some .inputsExhausted, last), unread)) :
    unread = [] ∧ ∃ rest, e.steps + budget = last.steps + rest ∧ ∀ bits more,
      e.driveScripted tape budget (inputs ++ bits :: more) = (last.answer bits).driveScripted tape rest more := by
  obtain ⟨taken, fetches, before, within, rfl, reach, ends, left⟩ := TapeStop.of_driveScripted run
  obtain ⟨rest, rfl⟩ := Nat.exists_eq_add_of_lt within
  have count := reach.steps_eq
  have final := ends.steps_eq
  refine ⟨left rfl, rest, by omega, ?_⟩
  intro bits more
  cases ends with
  | inputsExhausted fetch =>
    rw [left rfl, List.append_nil, Nat.add_assoc, Emulator.driveScripted_after reach]
    exact Emulator.driveScripted_request_cons fetch rest bits more

/-- The value whose bits the inputs hold. -/
def Machine.heldInputs (m : Machine) : UInt8 :=
  UInt8.ofNat (Nat.ofBits fun index : Fin 7 => m.inputs.get index.succ)

theorem Machine.testBit_heldInputs (m : Machine) (index : Fin 8) (used : index.val ≠ 0) :
    m.heldInputs.toNat.testBit (index.val - 1) = m.inputs.get index := by
  have small := Nat.ofBits_lt_two_pow fun index : Fin 7 => m.inputs.get index.succ
  have exact_value : m.heldInputs.toNat = Nat.ofBits fun index : Fin 7 => m.inputs.get index.succ := by
    rw [Machine.heldInputs, UInt8.toNat_ofNat', Nat.mod_eq_of_lt (by omega)]
  have inside : index.val - 1 < 7 := by omega
  -- The bits start at the first input that is used, one below its index.
  have back : (⟨index.val - 1, inside⟩ : Fin 7).succ = index := by
    apply Fin.ext
    simp only [Fin.val_succ]
    omega
  rw [exact_value, Nat.testBit_ofBits_lt _ _ inside, back]

/-- Loading what the inputs hold already changes nothing. -/
theorem Machine.loadInputs_heldInputs (m : Machine) : m.loadInputs m.heldInputs = m := by
  have same : (m.loadInputs m.heldInputs).inputs = m.inputs := by
    apply Vector.ext
    intro k inside
    have entry := m.get_loadInputs m.heldInputs ⟨k, inside⟩
    change (m.loadInputs m.heldInputs).inputs[k] = _ at entry
    rw [entry]
    by_cases zero : k = 0
    · rw [if_pos zero]
      rfl
    · rw [if_neg zero, m.testBit_heldInputs ⟨k, inside⟩ zero]
      rfl
  cases m
  simp only [Machine.loadInputs] at same ⊢
  rw [same]

section Calls

variable {program : Program} {limit : Nat} {inputs unread : List UInt8} {e last : Emulator}

/-- A call is refused and changes nothing, or it is driven within what is left of the limit. -/
theorem Emulator.executeScripted_cases {result : Except RunError Outcome}
    (run : Emulator.executeScripted program limit inputs e = ((result, last), unread)) :
    (∃ error, Tape.ofProgram? program = .error error ∧ result = .error error ∧ last = e ∧ unread = inputs) ∨
    ∃ tape stop, Tape.ofProgram? program = .ok tape ∧
      e.driveScripted tape (limit - e.steps) inputs = ((stop, last), unread) ∧ result = last.ending limit stop := by
  cases loaded : Tape.ofProgram? program with
  | error error =>
    rw [Emulator.executeScripted, Emulator.execute_refused loaded] at run
    cases run
    exact Or.inl ⟨error, rfl, rfl, rfl, rfl⟩
  | ok tape =>
    rw [Emulator.executeScripted_eq loaded] at run
    cases driven : e.driveScripted tape (limit - e.steps) inputs with
    | mk ended left =>
      obtain ⟨stop, final⟩ := ended
      rw [driven] at run
      cases run
      exact Or.inr ⟨tape, stop, rfl, driven, rfl⟩

/-- An error is final: it comes before anything else, and nothing that a call does removes its cause. -/
theorem Emulator.execute_after_error {error : RunError}
    (failed : Emulator.executeScripted program limit inputs e = ((.error error, last), unread))
    {σ : Type} (source : StateM σ (Option UInt8)) (s : σ) :
    (last.execute program limit source).run s = ((.error error, last), s) := by
  rcases Emulator.executeScripted_cases failed with ⟨_, refused, same, -, -⟩ | ⟨tape, stop, loaded, driven, ended⟩
  · cases same
    exact Emulator.execute_refused refused limit source last s
  · cases stop with
    | some reason => cases ended
    | none =>
      cases ended
      obtain ⟨taken, -, reach⟩ := TapeReach.of_driveScripted driven
      -- The limit was used up, and no call takes a step back.
      have spent : limit - last.steps = 0 := by
        rw [reach.steps_eq]
        omega
      rw [Emulator.execute_run loaded, spent, Emulator.drive_zero]
      rfl

theorem Emulator.executeScripted_append {result : Except RunError Outcome}
    (run : Emulator.executeScripted program limit inputs e = ((result, last), unread))
    (served : ∀ outcome, result = .ok outcome → outcome.stop ≠ .inputsExhausted) (more : List UInt8) :
    Emulator.executeScripted program limit (inputs ++ more) e = ((result, last), unread ++ more) := by
  rcases Emulator.executeScripted_cases run with ⟨_, refused, rfl, rfl, rfl⟩ | ⟨tape, stop, loaded, driven, rfl⟩
  · exact Emulator.execute_refused refused limit nextScripted last (unread ++ more)
  · have answered : stop ≠ some .inputsExhausted := by
      rintro rfl
      exact served _ rfl rfl
    rw [Emulator.executeScripted_eq loaded, Emulator.driveScripted_append driven answered]

theorem Emulator.executeScripted_resume {outcome : Outcome}
    (run : Emulator.executeScripted program limit inputs e = ((.ok outcome, last), unread))
    (missed : outcome.stop = .inputsExhausted) (bits : UInt8) (more : List UInt8) :
    Emulator.executeScripted program limit (inputs ++ [bits] ++ more) e =
      Emulator.executeScripted program limit more (last.answer bits) := by
  rcases Emulator.executeScripted_cases run with ⟨_, -, other, -⟩ | ⟨tape, stop, loaded, driven, ended⟩
  · cases other
  · cases stop with
    | none => cases ended
    | some reason =>
      cases ended
      cases missed
      obtain ⟨-, rest, count, resumed⟩ := Emulator.driveScripted_resume driven
      have steps : (last.answer bits).steps = last.steps := rfl
      have budget : limit - last.steps = rest := by
        have positive := (Emulator.driveScripted_of_stop driven).1
        omega
      rw [List.append_assoc, List.singleton_append, Emulator.executeScripted_eq loaded, resumed,
        Emulator.executeScripted_eq loaded, steps, budget]

end Calls

/-- A call with the first part of some inputs decides about a call with all of them. Unless it ends for want of
inputs, the whole call is the same and leaves the other part too. If it does, the whole call takes one more value
for the request that was not answered, and goes on as another call from there; another call that is made directly is
the whole call whose request was answered with what the inputs hold already. Behind an error, every call fails
with the same error, takes no inputs and changes nothing. -/
theorem Emulator.execute_splits_inputs (program : Program) (limit : Nat) (e : Emulator) (first second : List UInt8) :
    ∃ result last unread, Emulator.executeScripted program limit first e = ((result, last), unread) ∧
      ((∀ outcome, result = .ok outcome → outcome.stop ≠ .inputsExhausted) →
        Emulator.executeScripted program limit (first ++ second) e = ((result, last), unread ++ second)) ∧
      ((∃ outcome, result = .ok outcome ∧ outcome.stop = .inputsExhausted) →
        (∀ bits, Emulator.executeScripted program limit (first ++ [bits] ++ second) e =
          Emulator.executeScripted program limit second (last.answer bits)) ∧
        ∃ held : UInt8, (∀ index : Fin 8, index.val ≠ 0 →
            held.toNat.testBit (index.val - 1) = last.machine.inputs.get index) ∧
          Emulator.executeScripted program limit (first ++ [held] ++ second) e =
            Emulator.executeScripted program limit second last) ∧
      ∀ error, result = .error error → ∀ {σ : Type} (source : StateM σ (Option UInt8)) (s : σ),
        (last.execute program limit source).run s = ((.error error, last), s) := by
  cases run : Emulator.executeScripted program limit first e with
  | mk ended unread =>
    obtain ⟨result, last⟩ := ended
    refine ⟨result, last, unread, rfl, ?_, ?_, ?_⟩
    · intro served
      exact Emulator.executeScripted_append run served second
    · rintro ⟨outcome, rfl, missed⟩
      refine ⟨fun bits => Emulator.executeScripted_resume run missed bits second, last.machine.heldInputs, ?_, ?_⟩
      · exact fun index used => last.machine.testBit_heldInputs index used
      · have unchanged : last.answer last.machine.heldInputs = last := by
          rw [Emulator.answer, Machine.loadInputs_heldInputs]
        rw [Emulator.executeScripted_resume run missed, unchanged]
    · rintro error rfl σ source s
      exact Emulator.execute_after_error run source s

end OneBit
