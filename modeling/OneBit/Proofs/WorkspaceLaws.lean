import OneBit.Proofs.FilePlaces
import OneBit.Proofs.HostLaws
import OneBit.Workspace

namespace OneBit

def Workspace.view : HostView Workspace where
  entry? w := w.tree.entry?
  target? w path := (w.tree.target w.directory path).toOption
  draft draft := draft
  out w := w.terminal.out
  err w := w.terminal.err

variable {w after : Workspace}

theorem Workspace.became_refl (w : Workspace) : view.Became w (view.entry? w) w :=
  ⟨⟨rfl, rfl⟩, rfl, rfl⟩

/-- A file can come and go at one place without a message, and without another file going elsewhere. -/
theorem Workspace.became_update {tree : FileTree} {place : Path} {entry : Option Entry}
    (changed : tree.entry? = Function.update w.tree.entry? place entry)
    (before : w.tree.entry? place ≠ some .directory) (file : entry ≠ some .directory) :
    view.Became w (Function.update (view.entry? w) place entry) { w with tree } where
  out := rfl
  err := rfl
  entries := changed
  targets := by
    have same := FileTree.sameDirectories_of_update changed before file
    funext path
    exact FileTree.toOption_target_of_sameDirectories same w.directory path

/-- A stage that fails leaves the workspace alone, and one that succeeds changes the tree. -/
theorem Workspace.attempt_cases {α : Type} {stage : Stage} {go : Except SystemError (α × FileTree)}
    {result : Except SystemError α} (run : w.attempt stage go = (result, after)) :
    (∃ error, result = .error error ∧ after = w) ∨
      ∃ value tree, go = .ok (value, tree) ∧ result = .ok value ∧ after = { w with tree } := by
  unfold Workspace.attempt at run
  split at run
  · cases run
    exact Or.inl ⟨_, rfl, rfl⟩
  · split at run
    · cases run
      exact Or.inl ⟨_, rfl, rfl⟩
    · cases run
      exact Or.inr ⟨_, _, rfl, rfl, rfl⟩

/-- A stage that has no use for another tree changes nothing. -/
theorem Workspace.attempt_became {α : Type} {stage : Stage} {go : Except SystemError (α × FileTree)}
    {result : Except SystemError α} (run : w.attempt stage go = (result, after))
    (idle : ∀ value tree, go = .ok (value, tree) → tree = w.tree) : view.Became w (view.entry? w) after := by
  rcases attempt_cases run with ⟨_, -, rfl⟩ | ⟨value, tree, went, -, rfl⟩
  · exact became_refl after
  · rw [idle value tree went]
    exact became_refl w

theorem Workspace.named_of_file {bytes : List UInt8} {place : Path} (file : w.tree.entry? place = some (.file bytes)) :
    place ≠ [] := by
  rintro rfl
  cases file

/-- A draft takes other bytes in the place of its own. -/
theorem Workspace.became_put {draft : Path} {content : List UInt8} (there : w.tree.entry? draft = some (.file content))
    (bytes : List UInt8) : view.Became w (Function.update (view.entry? w) draft (some (.file bytes)))
      { w with tree := w.tree.put draft (.file bytes) } :=
  became_update (w.tree.entry?_put (named_of_file there) _) (by simp [there]) (by simp)

theorem Workspace.became_erase {draft : Path} {content : List UInt8} (there : w.tree.entry? draft = some (.file content)) :
    view.Became w (Function.update (view.entry? w) draft none) { w with tree := w.tree.erase draft } :=
  became_update (w.tree.entry?_erase (named_of_file there)) (by simp [there]) (by simp)

section Operations

variable {draft : Path} {path : String} {bytes : List UInt8} {error : SystemError}

theorem Workspace.pass_became {stage : Stage} {result : Except SystemError Unit} (run : w.pass stage = (result, after)) :
    view.Became w (view.entry? w) after := by
  refine attempt_became run ?_
  rintro _ _ ⟨⟩
  rfl

theorem Workspace.readFile_became {result : Except SystemError (List UInt8)} (run : w.readFile path = (result, after)) :
    view.Became w (view.entry? w) after := by
  refine attempt_became run ?_
  intro value tree went
  split at went
  · cases went
  · cases went
    rfl

/-- Nothing has the name under which a file is new. -/
theorem FileTree.fresh_of_placeNew {tree : FileTree} {rooted : String} {names : List String}
    (found : tree.placeNew rooted names = .ok draft) : draft ≠ [] ∧ tree.entry? draft = none := by
  induction names with
  | nil => cases found
  | cons name rest ih =>
    rw [FileTree.placeNew] at found
    split at found
    · cases found
    · cases found
    · rename_i parent _ _
      split at found
      · rename_i fresh
        cases found
        exact ⟨List.concat_ne_nil _ _, fresh⟩
      · exact ih found

theorem Workspace.createDraft_cases {result : Except SystemError Path} (run : w.createDraft path = (result, after)) :
    (∃ error, result = .error error ∧ after = w) ∨
      ∃ place, result = .ok place ∧ (place ≠ [] ∧ w.tree.entry? place = none) ∧
        after = { w with tree := w.tree.put place (.file []) } := by
  rcases attempt_cases run with ⟨error, failed, same⟩ | ⟨value, tree, went, created, changed⟩
  · exact Or.inl ⟨error, failed, same⟩
  · split at went
    · cases went
    · rename_i found
      cases went
      exact Or.inr ⟨_, created, FileTree.fresh_of_placeNew found, changed⟩

theorem Workspace.createDraft_ok (run : w.createDraft path = (.ok draft, after)) :
    w.tree.entry? draft = none ∧ view.Became w (Function.update (view.entry? w) draft (some (.file []))) after := by
  rcases createDraft_cases run with ⟨_, impossible, -⟩ | ⟨place, created, ⟨named, fresh⟩, rfl⟩
  · cases impossible
  cases created
  exact ⟨fresh, became_update (w.tree.entry?_put named _) (by simp [fresh]) (by simp)⟩

theorem Workspace.createDraft_error (run : w.createDraft path = (.error error, after)) :
    view.Became w (view.entry? w) after := by
  rcases createDraft_cases run with ⟨_, -, rfl⟩ | ⟨_, impossible, -⟩
  · exact became_refl after
  · cases impossible

theorem Workspace.writeDraft_cases {result : Except SystemError Unit}
    (empty : w.tree.entry? draft = some (.file [])) (run : w.writeDraft draft bytes = (result, after)) :
    ∃ content, (result = .ok () → content = bytes) ∧
      view.Became w (Function.update (view.entry? w) draft (some (.file content))) after := by
  unfold Workspace.writeDraft at run
  rcases attempt_cases run with ⟨error, rfl, rfl⟩ | ⟨value, tree, went, -, rfl⟩
  · refine ⟨_, ?_, became_put empty _⟩
    rintro ⟨⟩
  · cases went
    exact ⟨bytes, fun _ => rfl, became_put empty bytes⟩

theorem Workspace.publish_cases {result : Except SystemError Unit} (run : w.publish draft path = (result, after)) :
    (∃ error, result = .error error ∧ after = w) ∨
      result = .ok () ∧ ∃ place entry, w.tree.target w.directory path = .ok place ∧ w.tree.entry? draft = some entry ∧
        after = { w with tree := (w.tree.erase draft).put place entry } := by
  rcases attempt_cases run with ⟨error, failed, same⟩ | ⟨value, tree, went, done, changed⟩
  · exact Or.inl ⟨error, failed, same⟩
  · split at went
    · cases went
    · cases went
    · rename_i place entry target found
      cases went
      exact Or.inr ⟨done, place, entry, target, found, changed⟩

theorem Workspace.publish_ok (there : w.tree.entry? draft = some (.file bytes))
    (run : w.publish draft path = (.ok (), after)) :
    view.Silent w after ∧ ∃ place, view.target? w path = some place ∧ view.entry? after =
      Function.update (Function.update (view.entry? w) draft none) place (some (.file bytes)) := by
  rcases publish_cases run with ⟨_, impossible, -⟩ | ⟨-, place, entry, target, found, rfl⟩
  · cases impossible
  cases there.symm.trans found
  obtain ⟨named, -⟩ := FileTree.free_of_target target
  have moved := (w.tree.erase draft).entry?_put named (.file bytes)
  rw [w.tree.entry?_erase (named_of_file there)] at moved
  exact ⟨⟨rfl, rfl⟩, place, congrArg Except.toOption target, moved⟩

theorem Workspace.publish_error (run : w.publish draft path = (.error error, after)) :
    view.Became w (view.entry? w) after := by
  rcases publish_cases run with ⟨_, -, rfl⟩ | ⟨impossible, -⟩
  · exact became_refl after
  · cases impossible

end Operations

/-- Planned failures or none, the workspace does what the commands rely on. -/
theorem Workspace.lawful : Workspace.view.Lawful where
  reading run := readFile_became run
  inspecting run := by
    cases run
    exact became_refl _
  created run := createDraft_ok run
  uncreated run := createDraft_error run
  permitting run := pass_became run
  written empty run := by
    obtain ⟨content, whole, changed⟩ := writeDraft_cases empty run
    rwa [whole rfl] at changed
  unwritten empty run := by
    obtain ⟨content, -, changed⟩ := writeDraft_cases empty run
    exact ⟨content, changed⟩
  syncing run := pass_became run
  published there run := publish_ok there run
  unpublished run := publish_error run
  discarded there run := by
    cases run
    exact became_erase there
  printed run := by
    cases run
    exact ⟨rfl, rfl, rfl⟩
  told run := by
    cases run
    exact ⟨rfl, rfl, rfl⟩

end OneBit
