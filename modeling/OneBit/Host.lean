import OneBit.Pathname
import OneBit.SystemError

namespace OneBit

/-- What the commands need of the system: files, two output channels and a source of inputs. A file is
replaced by way of a draft, a file of its own that takes the place of the other one when it is published. -/
class Host (m : Type → Type) where
  Draft : Type
  Permissions : Type
  readFile (path : String) : ExceptT SystemError m (List UInt8)
  /-- The permissions of the file at a path, if the system tells them. -/
  permissions? (path : String) : m (Option Permissions)
  createDraft (directory : String) : ExceptT SystemError m Draft
  setPermissions (draft : Draft) (permissions : Permissions) : ExceptT SystemError m Unit
  writeDraft (draft : Draft) (bytes : List UInt8) : ExceptT SystemError m Unit
  syncDraft (draft : Draft) : ExceptT SystemError m Unit
  publish (draft : Draft) (path : String) : ExceptT SystemError m Unit
  discard (draft : Draft) : m Unit
  putOut (text : String) : m Unit
  putErr (text : String) : m Unit
  nextInputs : m (Option UInt8)

variable {m : Type → Type} [Monad m] [Host m]

/-- A file that is already at the path hands on its permissions to the draft. -/
def Host.adoptPermissions (draft : Host.Draft m) (path : String) : ExceptT SystemError m Unit := do
  match ← (Host.permissions? path : m _) with
  | some permissions => Host.setPermissions draft permissions
  | none => pure ()

def Host.fillDraft (draft : Host.Draft m) (path : String) (bytes : List UInt8) :
    ExceptT SystemError m Unit := do
  Host.adoptPermissions draft path
  Host.writeDraft draft bytes
  Host.syncDraft draft
  Host.publish draft path

/-- Replaces the file at a path by one with the given bytes. The draft is in the same directory, and it
is discarded if it does not get as far as being published. -/
def Host.replaceFile (path : String) (bytes : List UInt8) : ExceptT SystemError m Unit := do
  let draft ← Host.createDraft (parentPath path)
  tryCatch (Host.fillDraft draft path bytes) fun error => do
    (Host.discard draft : m Unit)
    throw error

end OneBit
