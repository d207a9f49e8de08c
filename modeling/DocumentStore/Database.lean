import DocumentStore.Collection

/-!
# Databases

A data directory with its collections. The name of a collection becomes a file
name, so it must not lead out of the directory.
-/

namespace DocumentStore

structure Database where
  config : Config
deriving DecidableEq

namespace Database

/-- Whether a name cannot be a file in the directory. -/
def isBadName (name : String) : Bool :=
  name.isEmpty || name == "." || name == ".." ||
    name.toList.any fun c => c = '/' || c = '\\' || c = '\x00'

/-- The collection with a name. Its file is made when it is first written. -/
def collection (database : Database) (name : String) : Result Collection :=
  if isBadName name then .error (.invalidPath (.collectionName name))
  else .ok (Collection.ofConfig database.config name)

/-- What the names of collection files end in. -/
def extension : List Char := ['.', 'j', 's', 'o', 'n']

/-- The name before the last dot, if what is after it is the extension of
collections and there is something before it. -/
def stem? (fileName : String) : Option String :=
  let chars := fileName.toList
  let stem := chars.take (chars.length - extension.length)
  if stem ≠ [] ∧ chars =
    stem ++ extension then some (String.ofList stem) else none

/-- The names of the collections that have a file, in order. -/
def list (_ : Database) : Store (List String) := do
  let files ← Store.ofResult (← get).folder.files
  return (files.filterMap stem?).mergeSort

/-- Remove the file of the collection with a name, and say whether it was
there. -/
def drop (database : Database) (name : String) : Store Bool := do
  let collection ← Store.ofResult (database.collection name)
  collection.drop

/-- Make the data directory, if it is not there. -/
def openAt (config : Config) : Store Database := do
  modify fun world => { world with folder := world.folder.made }
  return ⟨config⟩

end Database

end DocumentStore
