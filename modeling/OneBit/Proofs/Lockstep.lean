import OneBit.Proofs.TapeReach

namespace OneBit

/-- Fetches of one kind that leave related emulators behind, whatever the answer to a request is. -/
inductive Fetch.Related (related : Emulator → Emulator → Prop) : Fetch → Fetch → Prop
  | went {next next'} : related next next' → Related related (.went next) (.went next')
  | halt {last last'} : related last last' → Related related (.halt last) (.halt last')
  | request {next next'} : related next next' → (∀ bits, related (next.answer bits) (next'.answer bits)) →
      Related related (.request next) (.request next')

/-- Emulators that are related fetch alike. -/
def Lockstep (tape tape' : Tape) (related : Emulator → Emulator → Prop) : Prop :=
  ∀ ⦃e e'⦄, related e e' → Fetch.Related related (e.fetch tape) (e'.fetch tape')

/-- What holds of one fetch holds of a run with any source of inputs. -/
theorem Lockstep.drive {tape tape' : Tape} {related : Emulator → Emulator → Prop} (lockstep : Lockstep tape tape' related)
    {e e' : Emulator} (start : related e e') {σ : Type} (source : StateM σ (Option UInt8)) (budget : Nat) (s : σ) :
    ∃ stop last last' s', (e.drive tape source budget).run s = ((stop, last), s') ∧
      (e'.drive tape' source budget).run s = ((stop, last'), s') ∧ related last last' := by
  induction budget generalizing e e' s with
  | zero => exact ⟨none, e, e', s, rfl, rfl, start⟩
  | succ budget ih =>
    have both := lockstep start
    generalize fetch : e.fetch tape = f at both
    generalize fetch' : e'.fetch tape' = f' at both
    cases both with
    | went further =>
      rw [Emulator.drive_went fetch, Emulator.drive_went fetch']
      exact ih further s
    | @halt last last' stopped =>
      exact ⟨some .halted, last, last', s, Emulator.drive_halt fetch budget s, Emulator.drive_halt fetch' budget s, stopped⟩
    | @request next next' asked further =>
      cases answer : source.run s with
      | mk bits s' =>
        cases bits with
        | none =>
          exact ⟨some .inputsExhausted, next, next', s', Emulator.drive_unanswered fetch budget answer,
            Emulator.drive_unanswered fetch' budget answer, asked⟩
        | some bits =>
          rw [Emulator.drive_answered fetch budget answer, Emulator.drive_answered fetch' budget answer]
          exact ih (further bits) s'

end OneBit
