import DocumentStore.Config
import DocumentStore.IdIndex
import DocumentStore.Json.Reader
import DocumentStore.Storage.Folder

/-!
# Collection files

A collection is one file: a JSON array of its documents. A file that is not
there is an empty collection. The whole file is read, and the whole file is
written.
-/

namespace DocumentStore

/-- The world of the store: the data directory and the supply of identifiers. -/
structure World where
  folder : Folder
  ids : IdSupply

/-- An operation of the store changes the world and gives a result or an
error. -/
abbrev Store (α : Type) := ExceptT Error (StateM World) α

namespace Store

/-- A result that does not depend on the world. -/
def ofResult (r : Result α) : Store α := ExceptT.mk (pure r)

end Store

/-- The file of a collection: its name, its path in messages, and how it is
written. -/
structure CollectionFile where
  name : String
  path : String
  pretty : Bool
deriving DecidableEq

namespace CollectionFile

/-- The file of a collection under a configuration. -/
def ofConfig (config : Config) (collection : String) : CollectionFile :=
  ⟨Config.fileName collection, config.collectionPath collection, config.pretty⟩

/-- How many containers may lie around each other in a file. -/
def greatestDepth : Nat := 127

/-- The documents that a text lists. -/
def decode (path text : String) : Result (List Value) :=
  match Json.read? greatestDepth text.toList with
  | none => .error .serialization
  | some (.array docs) =>
      match docs.findIdx? fun doc => !doc.isObject with
      | some place => .error (.corruption path (.noObject place))
      | none => .ok docs
  | some other => .error (.corruption path (.noArray other))

/-- The text that lists documents. -/
def encode (pretty : Bool) (docs : List Value) : String :=
  String.ofList (Json.chars pretty (.array docs))

/-- The documents in a directory. -/
def read (file : CollectionFile) (folder : Folder) : Result (List Value) := do
  match ← folder.find file.name with
  | none => .ok []
  | some (.text content) => decode file.path content
  | some .binary => .error .serialization
  | some .directory => .error .io

/-- The documents of the collection. -/
def load (file : CollectionFile) : Store (List Value) := do
  let world ← get
  Store.ofResult (file.read world.folder)

/-- Write the documents of the collection. The directory is made if it is not
there, even if the file then cannot be written. -/
def save (file : CollectionFile) (docs : List Value) : Store Unit := do
  let world ← get
  set { world with folder := world.folder.made }
  let folder ← Store.ofResult
      (world.folder.write file.name (encode file.pretty docs))
  set { world with folder }

/-- Remove the file, and say whether it was there. -/
def remove (file : CollectionFile) : Store Bool := do
  let world ← get
  let (wasThere, folder) ← Store.ofResult (world.folder.remove file.name)
  set { world with folder }
  return wasThere

end CollectionFile

end DocumentStore
