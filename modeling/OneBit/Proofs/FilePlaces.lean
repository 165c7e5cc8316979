import Mathlib.Logic.Function.Basic
import OneBit.FileTree

namespace OneBit

theorem FileTree.lookup_erase (tree : FileTree) {path other : Path} (apart : other ≠ path) :
    (tree.erase path).lookup other = tree.lookup other := by
  induction tree with
  | nil => rfl
  | cons entry tree ih =>
    obtain ⟨place, content⟩ := entry
    unfold FileTree.erase at ih ⊢
    by_cases erased : place = path
    · rw [List.filter_cons_of_neg (by simpa using erased), ih, erased, List.lookup_cons, beq_false_of_ne apart]
    · rw [List.filter_cons_of_pos (by simpa using erased), List.lookup_cons, List.lookup_cons, ih]

theorem FileTree.entry?_erase (tree : FileTree) {path : Path} (named : path ≠ []) :
    FileTree.entry? (tree.erase path) = Function.update tree.entry? path none := by
  funext other
  by_cases here : other = path
  · subst here
    rw [Function.update_self, FileTree.entry?, if_neg named, List.lookup_eq_none_iff]
    intro entry member
    obtain ⟨-, kept⟩ := List.mem_filter.mp member
    exact bne_iff_ne.mpr (of_decide_eq_true kept).symm
  · rw [Function.update_of_ne here]
    unfold FileTree.entry?
    rw [tree.lookup_erase here]

theorem FileTree.entry?_put (tree : FileTree) {path : Path} (named : path ≠ []) (entry : Entry) :
    FileTree.entry? (tree.put path entry) = Function.update tree.entry? path (some entry) := by
  funext other
  by_cases here : other = path
  · subst here
    rw [Function.update_self, FileTree.entry?, if_neg named, FileTree.put, List.lookup_cons_self]
  · rw [Function.update_of_ne here]
    unfold FileTree.entry?
    rw [FileTree.put, List.lookup_cons, beq_false_of_ne here, tree.lookup_erase here]

/-- Trees in which the same paths are directories. -/
def FileTree.SameDirectories (tree other : FileTree) : Prop :=
  ∀ path, tree.entry? path = some .directory ↔ other.entry? path = some .directory

/-- A change at one place leaves the directories as they are, if none was there and none is put there. -/
theorem FileTree.sameDirectories_of_update {tree other : FileTree} {place : Path} {entry : Option Entry}
    (changed : other.entry? = Function.update tree.entry? place entry)
    (before : tree.entry? place ≠ some .directory) (after : entry ≠ some .directory) :
    tree.SameDirectories other := by
  intro path
  by_cases here : path = place
  · subst here
    rw [changed, Function.update_self]
    exact iff_of_false before after
  · rw [changed, Function.update_of_ne here]

/-- Where one name leads from a directory, whatever the tree holds. -/
def FileTree.nextPlace (place : Path) (name : String) : Except SystemError Path :=
  if name = "" ∨ name = "." then .ok place
  else if name = ".." then .ok place.dropLast
  else if nameLimit < name.utf8ByteSize then .error .nameTooLong
  else .ok (place ++ [name])

theorem FileTree.follow_nil_eq_ok_iff {tree : FileTree} {place reached : Path} {entry : Entry} :
    tree.follow place [] = .ok (reached, entry) ↔ place = reached ∧ tree.entry? place = some entry := by
  rw [FileTree.follow]
  split
  · rename_i content found
    simp only [Except.ok.injEq, Prod.mk.injEq, found, Option.some.injEq]
  · rename_i missing
    simp only [missing, reduceCtorEq, and_false]

theorem FileTree.follow_cons_eq_ok_iff {tree : FileTree} {place reached : Path} {entry : Entry} {name : String}
    {names : List String} : tree.follow place (name :: names) = .ok (reached, entry) ↔
      tree.entry? place = some .directory ∧
        ∃ next, nextPlace place name = .ok next ∧ tree.follow next names = .ok (reached, entry) := by
  rw [FileTree.follow]
  split
  · rename_i missing
    simp only [missing, reduceCtorEq, false_and]
  · rename_i bytes file
    simp only [file, Option.some.injEq, reduceCtorEq, false_and]
  · rename_i directory
    unfold nextPlace
    split
    · simp only [directory, true_and, Except.ok.injEq, exists_eq_left']
    · split
      · simp only [directory, true_and, Except.ok.injEq, exists_eq_left']
      · split
        · simp only [reduceCtorEq, false_and, exists_false, and_false]
        · simp only [directory, true_and, Except.ok.injEq, exists_eq_left']

theorem FileTree.follow_of_sameDirectories {tree other : FileTree} (same : tree.SameDirectories other) {names : List String}
    {place reached : Path} (leads : tree.follow place names = .ok (reached, .directory)) :
    other.follow place names = .ok (reached, .directory) := by
  induction names generalizing place with
  | nil =>
    obtain ⟨here, directory⟩ := follow_nil_eq_ok_iff.mp leads
    exact follow_nil_eq_ok_iff.mpr ⟨here, (same _).mp directory⟩
  | cons name names ih =>
    obtain ⟨directory, next, moved, leads⟩ := follow_cons_eq_ok_iff.mp leads
    exact follow_cons_eq_ok_iff.mpr ⟨(same _).mp directory, next, moved, ih leads⟩

theorem FileTree.locateDirectory_eq_ok_iff {tree : FileTree} {workingDirectory parent : Path} {names : List String} :
    tree.locateDirectory workingDirectory names = .ok parent ↔
      tree.locate workingDirectory names = .ok (parent, .directory) := by
  rw [FileTree.locateDirectory]
  split
  · rename_i failed
    simp only [failed, reduceCtorEq]
  · rename_i file
    simp only [file, Except.ok.injEq, Prod.mk.injEq, reduceCtorEq, and_false]
  · rename_i found
    simp only [found, Except.ok.injEq, Prod.mk.injEq, and_true]

/-- A name is the last one of a path if no slash follows it. -/
theorem dropWhile_reverse_eq_cons {names above : List String} {name : String}
    (last : names.reverse.dropWhile (· = "") = name :: above) (unslashed : ¬above.length + 1 < names.length) :
    names = above.reverse ++ [name] ∧ name ≠ "" := by
  have kept : name :: above <:+ names.reverse := last ▸ List.dropWhile_suffix _
  have all : name :: above = names.reverse := by
    apply kept.eq_of_length
    have shorter := kept.length_le
    simp only [List.length_cons, List.length_reverse] at shorter ⊢
    omega
  have plain := List.head?_dropWhile_not (fun name => decide (name = "")) names.reverse
  rw [last] at plain
  refine ⟨?_, of_decide_eq_false plain⟩
  rw [← List.reverse_reverse names, ← all, List.reverse_cons]

theorem FileTree.placeIn_eq_ok_iff {tree : FileTree} {parent place : Path} {name : String} {slashed : Bool} :
    tree.placeIn parent name slashed = .ok place ↔
      (name ≠ "." ∧ name ≠ "..") ∧ ¬nameLimit < name.utf8ByteSize ∧ slashed = false ∧
        tree.entry? (parent ++ [name]) ≠ some .directory ∧ parent ++ [name] = place := by
  rw [FileTree.placeIn, ← not_or]
  split
  · rename_i dots
    simp only [dots, reduceCtorEq, not_true, false_and]
  · rename_i plain
    split
    · rename_i long
      simp only [long, reduceCtorEq, not_true, false_and, and_false]
    · rename_i short
      split
      · rename_i slashed
        simp only [slashed, reduceCtorEq, false_and, and_false]
      · rename_i unslashed
        split
        · rename_i occupied
          simp only [occupied, reduceCtorEq, ne_eq, not_true, false_and, and_false]
        · rename_i free
          simp only [plain, short, unslashed, free, Except.ok.injEq, ne_eq, not_false_eq_true, true_and]

/-- A file can be put at a path if the names before the last one lead to a directory, and the last one is a plain
name that is no directory there. -/
theorem FileTree.target_eq_ok_iff {tree : FileTree} {workingDirectory place : Path} {path : String} :
    tree.target workingDirectory path = .ok place ↔ checkPath path = .ok () ∧ ∃ above name parent,
      pathNames path = above ++ [name] ∧ name ≠ "" ∧ (name ≠ "." ∧ name ≠ "..") ∧ ¬nameLimit < name.utf8ByteSize ∧
      tree.locate workingDirectory above = .ok (parent, .directory) ∧
      tree.entry? (parent ++ [name]) ≠ some .directory ∧ parent ++ [name] = place := by
  unfold FileTree.target
  cases legal : checkPath path with
  | error error => simp only [reduceCtorEq, false_and]
  | ok =>
    dsimp only
    constructor
    · intro found
      refine ⟨rfl, ?_⟩
      split at found
      · cases found
      · rename_i name above last
        split at found
        · cases found
        · rename_i parent leads
          obtain ⟨plain, short, unslashed, free, here⟩ := placeIn_eq_ok_iff.mp found
          obtain ⟨names, filled⟩ := dropWhile_reverse_eq_cons last (of_decide_eq_false unslashed)
          exact ⟨_, name, parent, names, filled, plain, short, locateDirectory_eq_ok_iff.mp leads, free, here⟩
    · rintro ⟨-, above, name, parent, names, filled, plain, short, leads, free, here⟩
      have last : (pathNames path).reverse.dropWhile (· = "") = name :: above.reverse := by
        rw [names, List.reverse_append, List.reverse_singleton, List.singleton_append,
          List.dropWhile_cons_of_neg (by simpa using filled)]
      have unslashed : ¬above.reverse.length + 1 < (pathNames path).length := by
        rw [names, List.length_reverse, List.length_append, List.length_singleton]
        exact Nat.lt_irrefl _
      rw [last]
      dsimp only
      rw [List.reverse_reverse, locateDirectory_eq_ok_iff.mpr leads]
      exact placeIn_eq_ok_iff.mpr ⟨plain, short, decide_eq_false unslashed, free, here⟩

theorem FileTree.target_of_sameDirectories {tree other : FileTree} (same : tree.SameDirectories other)
    {workingDirectory place : Path} {path : String} (found : tree.target workingDirectory path = .ok place) :
    other.target workingDirectory path = .ok place := by
  obtain ⟨legal, above, name, parent, names, filled, plain, short, leads, free, here⟩ := target_eq_ok_iff.mp found
  have leads' : other.locate workingDirectory above = .ok (parent, .directory) :=
    follow_of_sameDirectories same leads
  have free' := (not_congr (same (parent ++ [name]))).mp free
  exact target_eq_ok_iff.mpr ⟨legal, above, name, parent, names, filled, plain, short, leads', free', here⟩

theorem FileTree.free_of_target {tree : FileTree} {workingDirectory place : Path} {path : String}
    (found : tree.target workingDirectory path = .ok place) :
    place ≠ [] ∧ tree.entry? place ≠ some .directory := by
  obtain ⟨_, _, _, _, _, _, _, _, _, free, rfl⟩ := target_eq_ok_iff.mp found
  exact ⟨by simp, free⟩

/-- Files go to the same places in trees with the same directories, or to none in either. -/
theorem FileTree.toOption_target_of_sameDirectories {tree other : FileTree} (same : tree.SameDirectories other)
    (workingDirectory : Path) (path : String) :
    (other.target workingDirectory path).toOption = (tree.target workingDirectory path).toOption := by
  cases here : tree.target workingDirectory path with
  | ok place => rw [target_of_sameDirectories same here]
  | error =>
    cases there : other.target workingDirectory path with
    | error => rfl
    | ok place =>
      rw [target_of_sameDirectories (fun path => (same path).symm) there] at here
      cases here

end OneBit
