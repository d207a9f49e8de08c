import DocumentStore.Aggregation
import DocumentStore.Bulk
import DocumentStore.Collection.Options
import DocumentStore.Document
import DocumentStore.Find

/-!
# Collections

The operations on a collection. Each reads the whole file, works in memory and
writes the whole file back if there is something to write. One that fails writes
nothing, except for a bulk write, which writes what was done before it failed.

An operation that writes is called at an instant, which is the current time
wherever it asks for it. Two calls can be at two instants.
-/

namespace DocumentStore

structure Collection where
  name : String
  file : CollectionFile
deriving DecidableEq

namespace Collection

/-- The collection with a name under a configuration. -/
def ofConfig (config : Config) (name : String) : Collection :=
  ⟨name, .ofConfig config name⟩

/-- A document of this collection. -/
def bind (collection : Collection) (value : Value) : Document :=
  ⟨value, collection.file⟩

/-! ## Reading -/

/-- A search by a filter. -/
def find (collection : Collection) (filter : Value) : Find :=
  Find.narrow { file := collection.file } filter

/-- The first document that fulfils a clause. Those after it are not looked
at. -/
def firstMatch (clause : Value) : List Value → Result (Option Value)
  | [] => .ok none
  | doc :: rest => do
      if ← Filter.isMatch clause doc then .ok (some doc)
      else firstMatch clause rest

/-- The first document that a filter finds. -/
def findOne (collection : Collection) (filter : Value) :
    Store (Option Document) := do
  let clause ← Store.ofResult (Filter.ofValue filter)
  let docs ← collection.file.load
  let found ← Store.ofResult (firstMatch clause docs)
  return found.map collection.bind

/-- The document with an identifier. -/
def findById (collection : Collection) (id : Value) :
    Store (Option Document) := do
  let docs ← collection.file.load
  return (((IdIndex.build docs).find? id).bind (docs[·]?)).map collection.bind

/-- The document with an identifier, which has to be there. -/
def getById (collection : Collection) (id : Value) : Store Document := do
  match ← collection.findById id with
  | some doc => return doc
  | none => throw (.notFound (.document id collection.name))

/-- How many documents a filter finds. -/
def count (collection : Collection) (filter : Value) : Store Nat := do
  let clause ← Store.ofResult (Filter.ofValue filter)
  let docs ← collection.file.load
  let found ← Store.ofResult (Filter.select clause docs)
  return found.length

/-- The values that a document contributes: the elements of an array, or the
value at the path. -/
def contribution (path : Path) (doc : Value) : List Value :=
  match path.get doc with
  | some (.array items) => items
  | some v => [v]
  | none => []

/-- The values at a path in the documents that a filter finds, without those
that are alike to an earlier one. -/
def distinct (collection : Collection) (field : String) (filter : Value) :
    Store (List Value) := do
  let path ← Store.ofResult (Path.parse field)
  let clause ← Store.ofResult (Filter.ofValue filter)
  let docs ← collection.file.load
  let found ← Store.ofResult (Filter.select clause docs)
  return Value.distinct (found.flatMap (contribution path))

/-- What a pipeline makes of all documents. -/
def aggregate (collection : Collection) (pipeline : Value) :
    Store (List Value) := do
  let stages ← Store.ofResult (Aggregation.ofValue pipeline)
  let docs ← collection.file.load
  Store.ofResult (Aggregation.run stages docs)

/-! ## Writing -/

/-- Run a write on the documents of the collection in memory: its outcome, and
the batch afterwards. -/
def edit (collection : Collection) (w : Write α) :
    Store (Result α × Batch) := do
  let docs ← collection.file.load
  let world ← get
  let (outcome, batch) := (w.run (Batch.ofDocs docs world.ids)).run
  set { world with ids := batch.ids }
  return (outcome, batch)

/-- Insert a document, and give its identifier. -/
def insertOne (collection : Collection) (doc : Value) : Store Value := do
  let (outcome, batch) ← collection.edit (Write.insert doc)
  let id ← Store.ofResult outcome
  collection.file.save batch.docs
  return id

/-- Insert a document, and give it with its identifier. -/
def create (collection : Collection) (doc : Value) : Store Document := do
  let (outcome, batch) ← collection.edit (Write.insert doc)
  let _ ← Store.ofResult outcome
  collection.file.save batch.docs
  return collection.bind (batch.docs.getLast?.getD .null)

/-- Insert documents, all of them or none, and give their identifiers. -/
def insertMany (collection : Collection) (docs : List Value) :
    Store (List Value) := do
  let (outcome, batch) ← collection.edit (docs.mapM Write.insert)
  let ids ← Store.ofResult outcome
  collection.file.save batch.docs
  return ids

/-- Update the first document that a filter finds, or all of them. -/
def update (collection : Collection) (now : Instant) (filter spec : Value)
    (many : Bool) (options : UpdateOptions) : Store Write.Outcome := do
  let (outcome, batch) ←
    collection.edit (Write.update now filter (.update spec) many options.upsert)
  let outcome ← Store.ofResult outcome
  if 0 < outcome.modified || outcome.upsertedId.isSome then
    collection.file.save batch.docs
  return outcome

def updateOne (collection : Collection) (now : Instant) (filter spec : Value)
    (options : UpdateOptions) : Store Write.Outcome :=
  collection.update now filter spec false options

def updateMany (collection : Collection) (now : Instant) (filter spec : Value)
    (options : UpdateOptions) : Store Write.Outcome :=
  collection.update now filter spec true options

/-- Update the first document that a filter finds, and give it as it was or as
it is. If none is found and one is brought about, there is none as it was. -/
def findOneAndUpdate (collection : Collection) (now : Instant)
    (filter spec : Value) (options : FindOneAndUpdateOptions) :
    Store (Option Document) := do
  let (outcome, batch) ←
    collection.edit (Write.revise now filter (.update spec) options.upsert)
  let revision ← Store.ofResult outcome
  if revision.written then
    collection.file.save batch.docs
  match options.returned with
  | .before => return revision.before.map collection.bind
  | .after => return revision.after.map collection.bind

/-- Delete the first document that a filter finds, or all of them, and give how
many are gone. -/
def delete (collection : Collection) (filter : Value) (many : Bool) :
    Store Nat := do
  let (outcome, batch) ← collection.edit (Write.delete filter many)
  let taken ← Store.ofResult outcome
  if !taken.isEmpty then
    collection.file.save batch.docs
  return taken.length

def deleteOne (collection : Collection) (filter : Value) : Store Nat :=
  collection.delete filter false

def deleteMany (collection : Collection) (filter : Value) : Store Nat :=
  collection.delete filter true

/-- Run the operations of a bulk write. -/
def bulkWrite (collection : Collection) (now : Instant)
    (models : List WriteModel) : Store BulkCounts := do
  let (outcome, batch) ← collection.edit (Bulk.run now models)
  collection.file.save batch.docs
  Store.ofResult outcome

/-- Remove the file of the collection, and say whether it was there. -/
def drop (collection : Collection) : Store Bool := collection.file.remove

end Collection

end DocumentStore
