import OneBit.CommandLine
import OneBit.FileTree

namespace OneBit

/-- The steps of reading a file and of replacing one, each of which may fail. -/
inductive Stage where
  | read
  | create
  | permit
  | write
  | sync
  | publish
  deriving DecidableEq, Repr

/-- Names for drafts, of ten bytes each. -/
def draftNames (count : Nat) : List String :=
  (List.range count).map fun n => ".tmp" ++ String.ofList ((decimal n).leftpad 6 '0')

/-- A host in memory: a file tree, a terminal and a plan of failures. -/
structure Workspace where
  tree : FileTree := []
  directory : Path := []
  terminal : Terminal := {}
  fault : Stage → Option SystemError := fun _ => none
  /-- How many bytes are in the draft when writing fails as planned. -/
  written : Nat := 0
  /-- The names that are tried for a draft, one after another. -/
  names : List String := draftNames 100

/-- Goes through a stage, unless it is planned to fail. -/
def Workspace.attempt {α : Type} (stage : Stage) (w : Workspace) (go : Except SystemError (α × FileTree)) :
    Except SystemError α × Workspace :=
  match w.fault stage with
  | some error => (.error error, w)
  | none => match go with
    | .error error => (.error error, w)
    | .ok (value, tree) => (.ok value, { w with tree })

/-- A stage of which nothing is seen in the workspace. -/
def Workspace.pass (stage : Stage) (w : Workspace) : Except SystemError Unit × Workspace :=
  w.attempt stage (.ok ((), w.tree))

def Workspace.readFile (path : String) (w : Workspace) : Except SystemError (List UInt8) × Workspace :=
  w.attempt .read <| match w.tree.read w.directory path with
    | .error error => .error error
    | .ok bytes => .ok (bytes, w.tree)

/-- The place for a new file in the directory at a path from the root on, under the first name that is not
taken there. The path with the name is held to the limit for paths. -/
def FileTree.placeNew (tree : FileTree) (rooted : String) : List String → Except SystemError Path
  | [] => .error (.other "too many temporary files exist")
  | name :: rest => match checkPath (rooted ++ "/" ++ name), tree.locateDirectory [] (pathNames rooted) with
    | .error error, _ => .error error
    | _, .error error => .error error
    | .ok (), .ok parent =>
      if tree.entry? (parent ++ [name]) = none then .ok (parent ++ [name])
      else FileTree.placeNew tree rooted rest

def Workspace.createDraft (directory : String) (w : Workspace) : Except SystemError Path × Workspace :=
  w.attempt .create <| match w.tree.placeNew (joinPath (rootedPath w.directory) directory) w.names with
    | .error error => .error error
    | .ok place => .ok (place, w.tree.put place (.file []))

/-- What a path leads to has permissions, all of them alike. -/
def Workspace.permissions? (path : String) (w : Workspace) : Option Unit :=
  match checkPath path, w.tree.locate w.directory (pathNames path) with
  | .ok (), .ok _ => some ()
  | _, _ => none

def Workspace.writeDraft (draft : Path) (bytes : List UInt8) (w : Workspace) :
    Except SystemError Unit × Workspace :=
  let torn := { w with tree := w.tree.put draft (.file (bytes.take w.written)) }
  torn.attempt .write (.ok ((), w.tree.put draft (.file bytes)))

def Workspace.publish (draft : Path) (path : String) (w : Workspace) :
    Except SystemError Unit × Workspace :=
  w.attempt .publish <| match w.tree.target w.directory path, w.tree.entry? draft with
    | .error error, _ => .error error
    | .ok _, none => .error .notFound
    | .ok target, some entry => .ok ((), (w.tree.erase draft).put target entry)

instance : Host (StateM Workspace) where
  Draft := Path
  Permissions := Unit
  readFile path := ExceptT.mk (Workspace.readFile path)
  permissions? path := fun w => (w.permissions? path, w)
  createDraft directory := ExceptT.mk (Workspace.createDraft directory)
  setPermissions _ _ := ExceptT.mk (Workspace.pass .permit)
  writeDraft draft bytes := ExceptT.mk (Workspace.writeDraft draft bytes)
  syncDraft _ := ExceptT.mk (Workspace.pass .sync)
  publish draft path := ExceptT.mk (Workspace.publish draft path)
  discard draft := fun w => ((), { w with tree := w.tree.erase draft })
  putOut text := fun w =>
    ((), { w with terminal := { w.terminal with out := w.terminal.out ++ text } })
  putErr text := fun w =>
    ((), { w with terminal := { w.terminal with err := w.terminal.err ++ text } })
  nextInputs := fun w =>
    let (bits, terminal) := w.terminal.nextInputs
    (bits, { w with terminal })

end OneBit
