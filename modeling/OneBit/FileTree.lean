import OneBit.Pathname

namespace OneBit

/-- The names that lead from the root of a tree to an entry. -/
abbrev Path := List String

inductive Entry where
  | file (bytes : List UInt8)
  | directory
  deriving DecidableEq, Repr

/-- The entries of a tree. The root is a directory without being listed. -/
abbrev FileTree := List (Path × Entry)

def FileTree.entry? (tree : FileTree) (path : Path) : Option Entry :=
  if path = [] then some .directory else tree.lookup path

def FileTree.erase (tree : FileTree) (path : Path) : FileTree :=
  tree.filter fun entry => entry.1 ≠ path

/-- Makes an entry, in place of the one that was there. -/
def FileTree.put (tree : FileTree) (path : Path) (entry : Entry) : FileTree :=
  (path, entry) :: tree.erase path

/-- Follows names from a directory on. An empty name and a dot stay where they are and two dots go up,
but from the root there is no way up. All of them need a directory to start from. -/
def FileTree.follow (tree : FileTree) (place : Path) : List String → Except SystemError (Path × Entry)
  | [] => match tree.entry? place with
    | some entry => .ok (place, entry)
    | none => .error .notFound
  | name :: rest => match tree.entry? place with
    | none => .error .notFound
    | some (.file _) => .error .notDirectory
    | some .directory =>
      if name = "" ∨ name = "." then tree.follow place rest
      else if name = ".." then tree.follow place.dropLast rest
      else if nameLimit < name.utf8ByteSize then .error .nameTooLong
      else tree.follow (place ++ [name]) rest

/-- A path starts at the root if its first name is empty, and else at the working directory. -/
def FileTree.locate (tree : FileTree) (workingDirectory : Path) (names : List String) :
    Except SystemError (Path × Entry) :=
  tree.follow (if names.head? = some "" then [] else workingDirectory) names

/-- Where the names lead, if it is to a directory. -/
def FileTree.locateDirectory (tree : FileTree) (workingDirectory : Path) (names : List String) :
    Except SystemError Path :=
  match tree.locate workingDirectory names with
  | .error error => .error error
  | .ok (_, .file _) => .error .notDirectory
  | .ok (place, .directory) => .ok place

def FileTree.read (tree : FileTree) (workingDirectory : Path) (path : String) :
    Except SystemError (List UInt8) :=
  match checkPath path with
  | .error error => .error error
  | .ok () => match tree.locate workingDirectory (pathNames path) with
    | .error error => .error error
    | .ok (_, .directory) => .error .isDirectory
    | .ok (_, .file bytes) => .ok bytes

/-- The entry under a name in a directory, as the place for a file. Dots name a directory that is in use,
a file has no slash after its name, and a directory is not replaced by a file. -/
def FileTree.placeIn (tree : FileTree) (parent : Path) (name : String) (slashed : Bool) :
    Except SystemError Path :=
  if name = "." ∨ name = ".." then .error .busy
  else if nameLimit < name.utf8ByteSize then .error .nameTooLong
  else if slashed then .error .notDirectory
  else if tree.entry? (parent ++ [name]) = some .directory then .error .isDirectory
  else .ok (parent ++ [name])

/-- Where a file goes that is put at a path. All names but the last one have to lead to a directory. -/
def FileTree.target (tree : FileTree) (workingDirectory : Path) (path : String) :
    Except SystemError Path :=
  match checkPath path with
  | .error error => .error error
  | .ok () =>
    let names := pathNames path
    match names.reverse.dropWhile (· = "") with
    | [] => .error .busy
    | name :: above => match tree.locateDirectory workingDirectory above.reverse with
      | .error error => .error error
      | .ok parent => tree.placeIn parent name (above.length + 1 < names.length)

end OneBit
