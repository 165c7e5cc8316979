import Mathlib.Logic.Function.Basic
import OneBit.FileTree
import OneBit.Host

namespace OneBit

/-- What an operation that cannot fail gives on a host, and what state it leaves. -/
abbrev Host.perform {σ α : Type} (x : StateM σ α) (w : σ) : α × σ := x.run w

/-- How an operation that may fail ends on a host, and what state it leaves. -/
abbrev Host.call {σ α : Type} (x : ExceptT SystemError (StateM σ) α) (w : σ) : Except SystemError α × σ :=
  x.run.run w

/-- The states of a host as far as files and messages go: the entries of its tree, the place that a file put at a path
gets, the place of each draft, and the texts on the two channels. -/
structure HostView (σ : Type) [Host (StateM σ)] where
  entry? : σ → Path → Option Entry
  target? : σ → String → Option Path
  draft : Host.Draft (StateM σ) → Path
  out : σ → String
  err : σ → String

section Laws

variable {σ : Type} [Host (StateM σ)] (view : HostView σ)

/-- Nothing was printed. -/
structure HostView.Silent (before after : σ) : Prop where
  out : view.out after = view.out before
  err : view.err after = view.err before

/-- The entries have become the given ones. Files still get the same places, and nothing was printed. -/
structure HostView.Became (before : σ) (entries : Path → Option Entry) (after : σ) : Prop extends
    view.Silent before after where
  entries : view.entry? after = entries
  targets : view.target? after = view.target? before

/-- What the system and its drafts promise, one operation at a time. Each operation may fail in any state, and the
laws say what it has changed by then. -/
structure HostView.Lawful : Prop where
  /-- A file can be read without a trace. -/
  reading {path : String} {w after : σ} {result : Except SystemError (List UInt8)} :
    Host.call (Host.readFile path) w = (result, after) → view.Became w (view.entry? w) after
  inspecting {path : String} {w after : σ} {found : Option (Host.Permissions (StateM σ))} :
    Host.perform (Host.permissions? path) w = (found, after) → view.Became w (view.entry? w) after
  /-- A draft is an empty file under a name that nothing else has. -/
  created {directory : String} {w after : σ} {draft : Host.Draft (StateM σ)} :
    Host.call (Host.createDraft directory) w = (.ok draft, after) →
      view.entry? w (view.draft draft) = none ∧
      view.Became w (Function.update (view.entry? w) (view.draft draft) (some (.file []))) after
  uncreated {directory : String} {w after : σ} {error : SystemError} :
    Host.call (Host.createDraft directory) w = (.error error, after) → view.Became w (view.entry? w) after
  permitting {draft : Host.Draft (StateM σ)} {permissions : Host.Permissions (StateM σ)} {w after : σ}
    {result : Except SystemError Unit} :
    Host.call (Host.setPermissions draft permissions) w = (result, after) → view.Became w (view.entry? w) after
  written {draft : Host.Draft (StateM σ)} {bytes : List UInt8} {w after : σ} :
    view.entry? w (view.draft draft) = some (.file []) → Host.call (Host.writeDraft draft bytes) w = (.ok (), after) →
      view.Became w (Function.update (view.entry? w) (view.draft draft) (some (.file bytes))) after
  /-- Any part of the bytes may be in the draft when writing fails. -/
  unwritten {draft : Host.Draft (StateM σ)} {bytes : List UInt8} {w after : σ} {error : SystemError} :
    view.entry? w (view.draft draft) = some (.file []) →
      Host.call (Host.writeDraft draft bytes) w = (.error error, after) →
      ∃ content, view.Became w (Function.update (view.entry? w) (view.draft draft) (some (.file content))) after
  syncing {draft : Host.Draft (StateM σ)} {w after : σ} {result : Except SystemError Unit} :
    Host.call (Host.syncDraft draft) w = (result, after) → view.Became w (view.entry? w) after
  /-- The draft is moved over the file at the path in one step. -/
  published {draft : Host.Draft (StateM σ)} {path : String} {bytes : List UInt8} {w after : σ} :
    view.entry? w (view.draft draft) = some (.file bytes) → Host.call (Host.publish draft path) w = (.ok (), after) →
      view.Silent w after ∧ ∃ place, view.target? w path = some place ∧
        view.entry? after =
          Function.update (Function.update (view.entry? w) (view.draft draft) none) place (some (.file bytes))
  unpublished {draft : Host.Draft (StateM σ)} {path : String} {w after : σ} {error : SystemError} :
    Host.call (Host.publish draft path) w = (.error error, after) → view.Became w (view.entry? w) after
  /-- A draft that is not published leaves nothing behind. -/
  discarded {draft : Host.Draft (StateM σ)} {content : List UInt8} {w after : σ} :
    view.entry? w (view.draft draft) = some (.file content) → Host.perform (Host.discard draft) w = ((), after) →
      view.Became w (Function.update (view.entry? w) (view.draft draft) none) after
  printed {text : String} {w after : σ} : Host.perform (Host.putOut text) w = ((), after) →
    view.entry? after = view.entry? w ∧ view.out after = view.out w ++ text ∧ view.err after = view.err w
  told {text : String} {w after : σ} : Host.perform (Host.putErr text) w = ((), after) →
    view.entry? after = view.entry? w ∧ view.out after = view.out w ∧ view.err after = view.err w ++ text

end Laws

section Changes

variable {σ : Type} [Host (StateM σ)] {view : HostView σ} {first middle last : σ} {entries next : Path → Option Entry}

theorem HostView.Silent.trans (before : view.Silent first middle) (after : view.Silent middle last) :
    view.Silent first last :=
  ⟨after.out.trans before.out, after.err.trans before.err⟩

theorem HostView.Became.trans (before : view.Became first entries middle) (after : view.Became middle next last) :
    view.Became first next last :=
  ⟨before.toSilent.trans after.toSilent, after.entries, after.targets.trans before.targets⟩

theorem HostView.Became.kept (before : view.Became first entries middle)
    (after : view.Became middle (view.entry? middle) last) : view.Became first entries last := by
  have both := before.trans after
  rwa [before.entries] at both

/-- Of two changes at one place the first leaves no trace. -/
theorem HostView.Became.again {place : Path} {one two : Option Entry}
    (before : view.Became first (Function.update entries place one) middle)
    (after : view.Became middle (Function.update (view.entry? middle) place two) last) :
    view.Became first (Function.update entries place two) last := by
  have both := before.trans after
  rwa [before.entries, Function.update_idem] at both

theorem HostView.Became.here {place : Path} {entry : Option Entry}
    (before : view.Became first (Function.update entries place entry) middle) : view.entry? middle place = entry := by
  rw [before.entries, Function.update_self]

end Changes

variable {σ : Type}

theorem Host.perform_bind {α β : Type} {x : StateM σ α} {next : α → StateM σ β} {w after : σ} {result : β}
    (run : perform (x >>= next) w = (result, after)) :
    ∃ value middle, perform x w = (value, middle) ∧ perform (next value) middle = (result, after) :=
  ⟨_, _, rfl, run⟩

/-- A failure ends everything that was to come after it. -/
theorem Host.call_bind {α β : Type} {x : ExceptT SystemError (StateM σ) α}
    {next : α → ExceptT SystemError (StateM σ) β} {w after : σ} {result : Except SystemError β}
    (run : call (x >>= next) w = (result, after)) :
    (∃ error, call x w = (.error error, after) ∧ result = .error error) ∨
      ∃ value middle, call x w = (.ok value, middle) ∧ call (next value) middle = (result, after) := by
  have opened : call (x >>= next) w = match call x w with
      | (.error error, middle) => (.error error, middle)
      | (.ok value, middle) => call (next value) middle := by
    unfold call ExceptT.run StateT.run
    simp only [bind, ExceptT.bind, ExceptT.mk, StateT.bind]
    rcases x w with ⟨error | value, middle⟩
    · rfl
    · rfl
  rw [opened] at run
  rcases ran : call x w with ⟨error | value, middle⟩
  · rw [ran] at run
    cases run
    exact Or.inl ⟨error, rfl, rfl⟩
  · rw [ran] at run
    exact Or.inr ⟨value, middle, rfl, run⟩

theorem Host.call_lift {α : Type} {x : StateM σ α} {w after : σ} {result : Except SystemError α}
    (run : call (liftM x) w = (result, after)) : ∃ value, perform x w = (value, after) ∧ result = .ok value := by
  cases run
  exact ⟨_, rfl, rfl⟩

theorem Host.call_tryCatch {α : Type} {x : ExceptT SystemError (StateM σ) α}
    {handle : SystemError → ExceptT SystemError (StateM σ) α} {w after : σ} {result : Except SystemError α}
    (run : call (tryCatch x handle) w = (result, after)) :
    (∃ value, call x w = (.ok value, after) ∧ result = .ok value) ∨
      ∃ error middle, call x w = (.error error, middle) ∧ call (handle error) middle = (result, after) := by
  have opened : call (tryCatch x handle) w = match call x w with
      | (.error error, middle) => call (handle error) middle
      | (.ok value, middle) => (.ok value, middle) := by
    unfold call ExceptT.run StateT.run
    simp only [tryCatch, tryCatchThe, MonadExceptOf.tryCatch, ExceptT.tryCatch, ExceptT.mk, bind, StateT.bind]
    rcases x w with ⟨error | value, middle⟩
    · rfl
    · rfl
  rw [opened] at run
  rcases ran : call x w with ⟨error | value, middle⟩
  · rw [ran] at run
    exact Or.inr ⟨error, middle, rfl, run⟩
  · rw [ran] at run
    cases run
    exact Or.inl ⟨value, rfl, rfl⟩

end OneBit
