import DocumentStore.Bulk.Model
import DocumentStore.Write

/-!
# Bulk writes

Operations are run in order, each on what the ones before it left. The first
that fails ends the bulk write, and what was done before it stays done.

One instant stands for the whole bulk write. A clock that is read for each field
could be later at a later operation.
-/

namespace DocumentStore

/-- What a bulk write has done. Documents that it brought about are listed with
the places of the operations that did. -/
structure BulkCounts where
  inserted : Nat := 0
  matched : Nat := 0
  modified : Nat := 0
  deleted : Nat := 0
  upserted : Nat := 0
  upsertedIds : List (Nat × Value) := []
deriving DecidableEq

namespace BulkCounts

/-- Count an update, which was the operation at a place. -/
def addOutcome (counts : BulkCounts) (place : Nat)
    (outcome : Write.Outcome) : BulkCounts :=
  let counts := { counts with
    matched := counts.matched + outcome.matched
    modified := counts.modified + outcome.modified }
  match outcome.upsertedId with
  | some id =>
      { counts with
        upserted := counts.upserted + 1
        upsertedIds := counts.upsertedIds ++ [(place, id)] }
  | none => counts

end BulkCounts

namespace Bulk

/-- Run one operation, which has a place among others, and count what it
does. -/
def step (now : Instant) (place : Nat) (counts : BulkCounts)
    (model : WriteModel) : Write BulkCounts := do
  match model with
  | .insertOne document => do
      let _ ← Write.insert document
      return { counts with inserted := counts.inserted + 1 }
  | .updateOne filter spec upsert => do
      return counts.addOutcome place
        (← Write.update now filter (.update spec) false upsert)
  | .updateMany filter spec upsert => do
      return counts.addOutcome place
        (← Write.update now filter (.update spec) true upsert)
  | .replaceOne filter replacement upsert => do
      return counts.addOutcome place
        (← Write.update now filter (.replace replacement) false upsert)
  | .deleteOne filter => do
      let taken ← Write.delete filter false
      return { counts with deleted := counts.deleted + taken.length }
  | .deleteMany filter => do
      let taken ← Write.delete filter true
      return { counts with deleted := counts.deleted + taken.length }

/-- Run operations, the first of which has the given place. -/
def runFrom (now : Instant) (place : Nat) (counts : BulkCounts) :
    List WriteModel → Write BulkCounts
  | [] => return counts
  | model :: rest => do
      let counts ← step now place counts model
      runFrom now (place + 1) counts rest

/-- Run the operations of a bulk write. -/
def run (now : Instant) (models : List WriteModel) : Write BulkCounts :=
  runFrom now 0 {} models

end Bulk

end DocumentStore
