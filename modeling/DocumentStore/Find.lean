import DocumentStore.Filter
import DocumentStore.Find.Options
import DocumentStore.Storage.CollectionFile

/-!
# Searches

A search is put together call by call. A call that is given something unfit is
remembered, the first one if there are several, and reported when the search is
run, before the collection is read.
-/

namespace DocumentStore

structure Find where
  file : CollectionFile
  filter : List (String × Value) := []
  options : Find.Options := {}
  invalid : Option Error := none

namespace Find

/-- Remember an error unless there is one already. -/
def reject (find : Find) (e : Error) : Find :=
  match find.invalid with
  | some _ => find
  | none => { find with invalid := some e }

/-- Ask for more. A key that is given again counts as it is given last. -/
def narrow (find : Find) (clause : Value) : Find :=
  match clause with
  | .object fields => { find with filter := Fields.merge find.filter fields }
  | .null => find
  | other => find.reject (.invalidQuery (.filter other))

/-- Sort by what is checked before. -/
def sortBy (find : Find) (spec : SortSpec) : Find :=
  { find with options := { find.options with sort := some spec } }

/-- Sort by what a value asks for. -/
def sort (find : Find) (spec : Value) : Find :=
  match SortSpec.ofValue spec with
  | .ok spec => find.sortBy spec
  | .error e => find.reject e

def limit (find : Find) (n : Nat) : Find :=
  { find with options := { find.options with limit := some n } }

def skip (find : Find) (n : Nat) : Find :=
  { find with options := { find.options with skip := some n } }

/-- Project what is found. -/
def select (find : Find) (projection : Value) : Find :=
  match projection with
  | .object fields =>
      { find with options := { find.options with projection := some fields } }
  | other => find.reject (.invalidQuery (.projection other))

/-- The documents that the filter finds. -/
def found (find : Find) : Store (List Value) := do
  match find.invalid with
  | some e => throw e
  | none => do
      let docs ← find.file.load
      Store.ofResult (Filter.select (.object find.filter) docs)

/-- The documents that the search gives. -/
def run (find : Find) : Store (List Value) := do
  let docs ← find.found
  Store.ofResult (find.options.apply docs)

/-- The number of documents that the filter finds, whatever the options are. -/
def count (find : Find) : Store Nat := do
  let docs ← find.found
  return docs.length

end Find

end DocumentStore
