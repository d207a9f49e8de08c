import DocumentStore.Path.Access
import DocumentStore.Storage.CollectionFile

/-!
# Documents at hand

A document that was read from a collection can be changed at hand and written
back. Its identifier cannot be changed. A change that fails leaves the
containers that it made on its way.
-/

namespace DocumentStore

/-- A document and the file that it came from. -/
structure Document where
  value : Value
  file : CollectionFile
deriving DecidableEq

namespace Document

def id? (doc : Document) : Option Value := doc.value.field? idKey

/-- The value at a path. -/
def get (doc : Document) (path : String) : Result (Option Value) := do
  let path ← Path.parse path
  .ok (path.get doc.value)

/-- Assign at a path: the document afterwards, and the error that stopped it. -/
def set (doc : Document) (path : String) (new : Value) :
    Document × Result Unit :=
  match Path.parse path with
  | .error e => (doc, .error e)
  | .ok path =>
      if path.segments.head? = some (.key idKey) then
        (doc, .error (.typeMismatch .immutableId))
      else
        let (changed, outcome) := Path.assign path.segments new doc.value
        ({ doc with value := changed }, outcome)

/-- Write the document back: in the place of the one with its identifier, or at
the end if there is none. -/
def save (doc : Document) : Store Unit := do
  match doc.id? with
  | none => throw (.notFound .documentId)
  | some id => do
      let docs ← doc.file.load
      match (IdIndex.build docs).find? id with
      | some place => doc.file.save (docs.set place doc.value)
      | none => doc.file.save (docs ++ [doc.value])

end Document

end DocumentStore
