import DocumentStore.Error

/-!
# The data directory

What can be seen of a directory: whether it is there, and under which names
there are files and directories. A file holds text, or bytes that are no text.
Names have a greatest length, counted in bytes.
-/

namespace DocumentStore

inductive Entry where
  | text (content : String)
  | binary
  | directory
deriving DecidableEq

/-- The entries of a directory by their names, if it is there. -/
abbrev Folder := Option (List (String × Entry))

namespace Folder

/-- The greatest length of a name in bytes. -/
def greatestName : Nat := 255

/-- The directory after it was made, if it was not there. -/
def made (folder : Folder) : Folder := some (folder.getD [])

/-- The entry under a name, if there is one. A name that is too long is refused,
but only where there is a directory to look into. -/
def find (folder : Folder) (name : String) : Result (Option Entry) :=
  match folder with
  | none => .ok none
  | some entries =>
      if greatestName < name.utf8ByteSize then .error .io
      else .ok (Fields.get? name entries)

/-- The directory with a file of this text, unless there is a directory in its
place. -/
def write (folder : Folder) (name content : String) : Result Folder := do
  match ← folder.made.find name with
  | some .directory => .error .io
  | _ => .ok (some (Fields.insert name (.text content) (folder.getD [])))

/-- The directory without a file, and whether there was one. -/
def remove (folder : Folder) (name : String) : Result (Bool × Folder) := do
  match ← folder.find name with
  | none => .ok (false, folder)
  | some .directory => .error .io
  | some _ => .ok (true, folder.map (Fields.erase name))

/-- Whether there is a file under a name. -/
def hasFile (folder : Folder) (name : String) : Bool :=
  match folder.find name with
  | .ok (some (.text _)) => true
  | .ok (some .binary) => true
  | _ => false

/-- The names of the files. -/
def files (folder : Folder) : Result (List String) :=
  match folder with
  | none => .error .io
  | some entries =>
      .ok ((entries.filter fun (_, entry) => entry != .directory).map (·.1))

end Folder

end DocumentStore
