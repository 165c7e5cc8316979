import OneBit.Proofs.HostLaws

namespace OneBit

variable {σ : Type} [Host (StateM σ)]

/-- How far a draft has come. -/
inductive DraftStage where
  | created
  | permitted
  | written
  | synced

def DraftStage.content (bytes : List UInt8) : DraftStage → List UInt8
  | .created | .permitted => []
  | .written | .synced => bytes

/-- The states on the way to a file at a path, as long as no operation fails. -/
inductive DraftReach (path : String) (bytes : List UInt8) (w : σ) :
    DraftStage → Host.Draft (StateM σ) → σ → Prop
  | created {draft after} : Host.call (Host.createDraft (parentPath path)) w = (.ok draft, after) →
      DraftReach path bytes w .created draft after
  | plain {draft before after} : DraftReach path bytes w .created draft before →
      Host.perform (Host.permissions? path) before = (none, after) →
      DraftReach path bytes w .permitted draft after
  | permitted {draft before asked after permissions} : DraftReach path bytes w .created draft before →
      Host.perform (Host.permissions? path) before = (some permissions, asked) →
      Host.call (Host.setPermissions draft permissions) asked = (.ok (), after) →
      DraftReach path bytes w .permitted draft after
  | written {draft before after} : DraftReach path bytes w .permitted draft before →
      Host.call (Host.writeDraft draft bytes) before = (.ok (), after) →
      DraftReach path bytes w .written draft after
  | synced {draft before after} : DraftReach path bytes w .written draft before →
      Host.call (Host.syncDraft draft) before = (.ok (), after) →
      DraftReach path bytes w .synced draft after

/-- A draft that gets no further, because the next operation fails. -/
inductive DraftFails (path : String) (bytes : List UInt8) (w : σ) (draft : Host.Draft (StateM σ)) :
    SystemError → σ → Prop
  | permit {before asked after permissions error} : DraftReach path bytes w .created draft before →
      Host.perform (Host.permissions? path) before = (some permissions, asked) →
      Host.call (Host.setPermissions draft permissions) asked = (.error error, after) →
      DraftFails path bytes w draft error after
  | write {before after error} : DraftReach path bytes w .permitted draft before →
      Host.call (Host.writeDraft draft bytes) before = (.error error, after) →
      DraftFails path bytes w draft error after
  | sync {before after error} : DraftReach path bytes w .written draft before →
      Host.call (Host.syncDraft draft) before = (.error error, after) →
      DraftFails path bytes w draft error after
  | publish {before after error} : DraftReach path bytes w .synced draft before →
      Host.call (Host.publish draft path) before = (.error error, after) →
      DraftFails path bytes w draft error after

/-- The ways in which replacing the file at a path ends. -/
inductive ReplaceEnd (path : String) (bytes : List UInt8) (w : σ) : Except SystemError Unit → σ → Prop
  | uncreated {after error} : Host.call (Host.createDraft (parentPath path)) w = (.error error, after) →
      ReplaceEnd path bytes w (.error error) after
  | discarded {draft before after error} : DraftFails path bytes w draft error before →
      Host.perform (Host.discard draft) before = ((), after) →
      ReplaceEnd path bytes w (.error error) after
  | published {draft before after} : DraftReach path bytes w .synced draft before →
      Host.call (Host.publish draft path) before = (.ok (), after) →
      ReplaceEnd path bytes w (.ok ()) after

section Runs

variable {path : String} {bytes : List UInt8} {w : σ} {draft : Host.Draft (StateM σ)}
  {result : Except SystemError Unit}

theorem Host.adoptPermissions_cases {before after : σ} (reach : DraftReach path bytes w .created draft before)
    (run : call (adoptPermissions draft path) before = (result, after)) :
    (∃ error, DraftFails path bytes w draft error after ∧ result = .error error) ∨
      DraftReach path bytes w .permitted draft after ∧ result = .ok () := by
  unfold Host.adoptPermissions at run
  rcases call_bind run with ⟨error, asked, -⟩ | ⟨found, asked, asking, run⟩
  · obtain ⟨value, -, impossible⟩ := call_lift asked
    cases impossible
  obtain ⟨found, asking, same⟩ := call_lift asking
  cases same
  cases found with
  | none =>
    cases run
    exact Or.inr ⟨.plain reach asking, rfl⟩
  | some permissions =>
    rcases result with error | ⟨⟩
    · exact Or.inl ⟨error, .permit reach asking run, rfl⟩
    · exact Or.inr ⟨.permitted reach asking run, rfl⟩

/-- A draft that was created is stopped by a failure, or it comes to be published. -/
theorem Host.fillDraft_cases {created after : σ} (reach : DraftReach path bytes w .created draft created)
    (run : call (fillDraft draft path bytes) created = (result, after)) :
    (∃ error, DraftFails path bytes w draft error after ∧ result = .error error) ∨
      ∃ synced, DraftReach path bytes w .synced draft synced ∧
        call (publish draft path) synced = (.ok (), after) ∧ result = .ok () := by
  unfold Host.fillDraft at run
  rcases call_bind run with ⟨error, adopting, rfl⟩ | ⟨⟨⟩, permitted, adopting, run⟩
  · rcases adoptPermissions_cases reach adopting with ⟨_, fails, same⟩ | ⟨-, impossible⟩
    · cases same
      exact Or.inl ⟨_, fails, rfl⟩
    · cases impossible
  rcases adoptPermissions_cases reach adopting with ⟨_, -, impossible⟩ | ⟨reach, -⟩
  · cases impossible
  rcases call_bind run with ⟨error, writing, rfl⟩ | ⟨⟨⟩, written, writing, run⟩
  · exact Or.inl ⟨error, .write reach writing, rfl⟩
  replace reach := reach.written writing
  rcases call_bind run with ⟨error, syncing, rfl⟩ | ⟨⟨⟩, synced, syncing, run⟩
  · exact Or.inl ⟨error, .sync reach syncing, rfl⟩
  replace reach := reach.synced syncing
  rcases result with error | ⟨⟩
  · exact Or.inl ⟨error, .publish reach run, rfl⟩
  · exact Or.inr ⟨synced, reach, run, rfl⟩

theorem Host.replaceFile_ends {after : σ} (run : call (replaceFile path bytes) w = (result, after)) :
    ReplaceEnd path bytes w result after := by
  unfold Host.replaceFile at run
  rcases call_bind run with ⟨error, failed, rfl⟩ | ⟨draft, created, creating, run⟩
  · exact .uncreated failed
  have reach : DraftReach path bytes w .created draft created := .created creating
  rcases call_tryCatch run with ⟨⟨⟩, filling, rfl⟩ | ⟨error, before, filling, run⟩
  · rcases fillDraft_cases reach filling with ⟨_, -, impossible⟩ | ⟨synced, reach, publishing, -⟩
    · cases impossible
    · exact .published reach publishing
  · rcases fillDraft_cases reach filling with ⟨_, fails, same⟩ | ⟨_, -, -, impossible⟩
    · cases same
      rcases call_bind run with ⟨_, discarding, -⟩ | ⟨⟨⟩, discarded, discarding, run⟩
      · obtain ⟨_, -, impossible⟩ := call_lift discarding
        cases impossible
      · obtain ⟨⟨⟩, discarding, -⟩ := call_lift discarding
        cases run
        exact .discarded fails discarding
    · cases impossible

end Runs

section Files

variable {view : HostView σ} {path : String} {bytes : List UInt8} {w : σ} {draft : Host.Draft (StateM σ)}

/-- The draft is the only entry that changes on the way, and it was none before. -/
theorem DraftReach.drafted {stage : DraftStage} {s : σ} (laws : view.Lawful)
    (reach : DraftReach path bytes w stage draft s) :
    view.entry? w (view.draft draft) = none ∧
      view.Became w (Function.update (view.entry? w) (view.draft draft) (some (.file (stage.content bytes)))) s := by
  induction reach with
  | created creating => exact laws.created creating
  | plain _ asking ih => exact ⟨ih.1, ih.2.kept (laws.inspecting asking)⟩
  | permitted _ asking setting ih =>
    exact ⟨ih.1, (ih.2.kept (laws.inspecting asking)).kept (laws.permitting setting)⟩
  | written _ writing ih => exact ⟨ih.1, ih.2.again (laws.written ih.2.here writing)⟩
  | synced _ syncing ih => exact ⟨ih.1, ih.2.kept (laws.syncing syncing)⟩

/-- What a failure leaves behind is at most the draft. -/
theorem DraftFails.left {error : SystemError} {s : σ} (laws : view.Lawful)
    (fails : DraftFails path bytes w draft error s) :
    view.entry? w (view.draft draft) = none ∧ ∃ content,
      view.Became w (Function.update (view.entry? w) (view.draft draft) (some (.file content))) s := by
  cases fails with
  | permit reach asking setting =>
    obtain ⟨fresh, drafted⟩ := reach.drafted laws
    exact ⟨fresh, _, (drafted.kept (laws.inspecting asking)).kept (laws.permitting setting)⟩
  | write reach writing =>
    obtain ⟨fresh, drafted⟩ := reach.drafted laws
    obtain ⟨content, torn⟩ := laws.unwritten drafted.here writing
    exact ⟨fresh, content, drafted.again torn⟩
  | sync reach syncing =>
    obtain ⟨fresh, drafted⟩ := reach.drafted laws
    exact ⟨fresh, _, drafted.kept (laws.syncing syncing)⟩
  | publish reach publishing =>
    obtain ⟨fresh, drafted⟩ := reach.drafted laws
    exact ⟨fresh, _, drafted.kept (laws.unpublished publishing)⟩

/-- A file that is not replaced is as it was, and so is everything else. -/
theorem ReplaceEnd.restored {error : SystemError} {after : σ} (laws : view.Lawful)
    (ends : ReplaceEnd path bytes w (.error error) after) : view.Became w (view.entry? w) after := by
  cases ends with
  | uncreated creating => exact laws.uncreated creating
  | @discarded draft before _ _ fails discarding =>
    obtain ⟨fresh, content, left⟩ := fails.left laws
    have gone := left.again (laws.discarded left.here discarding)
    rwa [← fresh, Function.update_eq_self] at gone

/-- A file that is replaced is where the path says, and nothing else has changed. -/
theorem ReplaceEnd.replaced {after : σ} (laws : view.Lawful) (ends : ReplaceEnd path bytes w (.ok ()) after) :
    view.Silent w after ∧ ∃ place, view.target? w path = some place ∧
      view.entry? after = Function.update (view.entry? w) place (some (.file bytes)) := by
  cases ends with
  | @published draft before _ reach publishing =>
    obtain ⟨fresh, drafted⟩ := reach.drafted laws
    obtain ⟨silent, place, target, moved⟩ := laws.published drafted.here publishing
    refine ⟨drafted.toSilent.trans silent, place, drafted.targets ▸ target, ?_⟩
    rw [moved, drafted.entries, Function.update_idem, ← fresh, Function.update_eq_self, DraftStage.content]

end Files

end OneBit
