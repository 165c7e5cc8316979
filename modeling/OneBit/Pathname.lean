import OneBit.SystemError

namespace OneBit

def pathLimit : Nat := 4095

def nameLimit : Nat := 255

/-- Refuses the texts that lead nowhere in any tree. A zero byte would end the text for the system, so it
is looked for before the text is measured. -/
def checkPath (path : String) : Except SystemError Unit :=
  if '\x00' ∈ path.toList then .error .zeroByte
  else if pathLimit < path.utf8ByteSize then .error .nameTooLong
  else if path = "" then .error .notFound
  else .ok ()

/-- The names in a path. A path that starts with a slash starts with an empty name. -/
def pathNames (path : String) : List String :=
  (path.toList.splitOn '/').map String.ofList

/-- Names without those at the end that stay in the same directory. The first name is kept, for it says
where the path starts. -/
def trimNames : List String → List String
  | [] => []
  | first :: rest =>
    first :: (rest.reverse.dropWhile fun name => name = "" ∨ name = ".").reverse

/-- The path of the directory that the last name of a path is in. Names at the end that stay in the same
directory do not count as the last one, and a single name is in the working directory. -/
def parentPath (path : String) : String :=
  match trimNames (trimNames (pathNames path)).dropLast with
  | [] => "."
  | [""] => "/"
  | names => String.intercalate "/" names

/-- The text of names from the root on. -/
def rootedPath (names : List String) : String :=
  "/" ++ String.intercalate "/" names

/-- A path seen from a directory. A path that starts with a slash is the same from everywhere. -/
def joinPath (directory path : String) : String :=
  if path.toList.head? = some '/' then path else directory ++ "/" ++ path

end OneBit
