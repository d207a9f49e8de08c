import DocumentStore.Change
import DocumentStore.IdIndex

/-!
# Writing to a list of documents

The documents of a collection are changed in memory, with an index of their
identifiers beside them. A write that fails ends there, and what it had changed
by then stays changed: it is for the caller to keep that or to drop it.

One instant stands for the whole write, for all documents that it changes,
though the clock could be read again for each field of each of them.
-/

namespace DocumentStore

/-- The documents, the index of their identifiers, and the supply of new
ones. -/
structure Batch where
  docs : List Value
  index : IdIndex
  ids : IdSupply

/-- A write changes a batch and gives a result or an error. -/
abbrev Write (α : Type) := ExceptT Error (StateM Batch) α

namespace Batch

/-- A batch of documents with its index built anew. -/
def ofDocs (docs : List Value) (ids : IdSupply) : Batch :=
  ⟨docs, IdIndex.build docs, ids⟩

end Batch

namespace Write

/-- A result that does not depend on the batch. -/
def ofResult (r : Result α) : Write α := ExceptT.mk (pure r)

/-! ## Finding -/

/-- The identifier that a filter asks for, if that is all it asks for and a
string. -/
def soughtId? : Value → Option Value
  | .object [(key, .string s)] => if key = idKey then some (.string s) else none
  | _ => none

/-- The places of all documents that fulfil a clause, the first document having
the given place. -/
def placesFrom (clause : Value) (place : Nat) : List Value → Result (List Nat)
  | [] => .ok []
  | doc :: rest => do
      if ← Filter.isMatch clause doc then
        let others ← placesFrom clause (place + 1) rest
        .ok (place :: others)
      else placesFrom clause (place + 1) rest

/-- The place of the first document that fulfils a clause. Those after it are
not looked at. -/
def firstPlaceFrom (clause : Value) (place : Nat) :
    List Value → Result (List Nat)
  | [] => .ok []
  | doc :: rest => do
      if ← Filter.isMatch clause doc then .ok [place]
      else firstPlaceFrom clause (place + 1) rest

/-- The places of the documents that a filter finds, in order: all of them or
the first. An identifier that is a string is looked up in the index. -/
def places (batch : Batch) (filter : Value) (many : Bool) : Result (List Nat) :=
  match soughtId? filter with
  | some id => .ok (batch.index.find? id).toList
  | none => do
      let clause ← Filter.ofValue filter
      if many then placesFrom clause 0 batch.docs
      else firstPlaceFrom clause 0 batch.docs

/-! ## Inserting -/

/-- Give fields a new identifier. -/
def assignId (fields : List (String × Value)) : Write (Value × Value) := do
  let batch ← get
  let id := batch.ids.id
  set { batch with ids := batch.ids.rest }
  return (id, .object (Fields.insert idKey id fields))

/-- The identifier of a document, and the document with it: a missing one, or
null, gives way to a new one. -/
def ensureId (doc : Value) : Write (Value × Value) := do
  match doc with
  | .object fields =>
      match Fields.get? idKey fields with
      | some id => if id.isNull then assignId fields else return (id, doc)
      | none => assignId fields
  | _ => throw (.typeMismatch .document)

/-- Add a document at the end, and give its identifier, which must be new. -/
def insert (doc : Value) : Write Value := do
  let (id, doc) ← ensureId doc
  let batch ← get
  if batch.index.contains id then throw (.duplicateId id)
  set { batch with
    docs := batch.docs ++ [doc],
      index := batch.index.enter id batch.docs.length }
  return id

/-! ## Updating -/

/-- Change the documents at some places, and count those that are not the same
afterwards. -/
def change (now : Instant) (c : Change) : List Nat → Write Nat
  | [] => return 0
  | place :: rest => do
      let batch ← get
      match batch.docs[place]? with
      | none => change now c rest
      | some doc => do
          let changed ← ofResult (c.apply now doc)
          if changed.same doc then change now c rest
          else
            set { batch with docs := batch.docs.set place changed }
            let others ← change now c rest
            return others + 1

/-- Bring about the document that a change makes for a filter, and give its
identifier. -/
def bringAbout (now : Instant) (filter : Value) (c : Change) : Write Value := do
  let doc ← ofResult (c.upsertDocument now filter)
  insert doc

/-- What became of an update. -/
structure Outcome where
  matched : Nat
  modified : Nat
  upsertedId : Option Value
deriving DecidableEq

/-- Change the first document that a filter finds, or all of them. If it finds
none, bring one about if that is wanted. -/
def update (now : Instant) (filter : Value) (c : Change) (many upsert : Bool) :
    Write Outcome := do
  let found ← ofResult (places (← get) filter many)
  let modified ← change now c found
  if found.isEmpty && upsert then
    let id ← bringAbout now filter c
    return ⟨0, modified, some id⟩
  return ⟨found.length, modified, none⟩

/-- A document before and after a change, and whether there is anything to
write. -/
structure Revision where
  before : Option Value
  after : Option Value
  written : Bool
deriving DecidableEq

/-- Change the first document that a filter finds, and give it before and after.
If there is none, bring one about if that is wanted. -/
def revise (now : Instant) (filter : Value) (c : Change) (upsert : Bool) :
    Write Revision := do
  let batch ← get
  let found ← ofResult (places batch filter false)
  match found.head?.bind fun place => (batch.docs[place]?).map (place, ·) with
  | some (place, before) => do
      let after ← ofResult (c.apply now before)
      if after.same before then return ⟨some before, some after, false⟩
      else
        set { batch with docs := batch.docs.set place after }
        return ⟨some before, some after, true⟩
  | none =>
      if upsert then do
        let id ← bringAbout now filter c
        let batch ← get
        return ⟨none, (batch.index.find? id).bind (batch.docs[·]?), true⟩
      else return ⟨none, none, false⟩

/-! ## Deleting -/

/-- The items at some places, which are given in order, and the others. The
first item has the place `place`. -/
def partitionAt (place : Nat) : List Nat → List α → List α × List α
  | _, [] => ([], [])
  | [], items => ([], items)
  | chosen :: more, item :: rest =>
      if chosen = place then
        let (taken, left) := partitionAt (place + 1) more rest
        (item :: taken, left)
      else
        let (taken, left) := partitionAt (place + 1) (chosen :: more) rest
        (taken, item :: left)

/-- Take away the first document that a filter finds, or all of them, and give
those that are gone. -/
def delete (filter : Value) (many : Bool) : Write (List Value) := do
  let batch ← get
  let found ← ofResult (places batch filter many)
  if found.isEmpty then return []
  let (taken, left) := partitionAt 0 found batch.docs
  set { batch with docs := left, index := IdIndex.build left }
  return taken

end Write

end DocumentStore
