import DocumentStore.Update

/-!
# Changes

A change makes a new version of a document, by an update or by replacing it. The
identifier stays: one that is changed is changed back, and one that is dropped
is put back where it was, or first in a replacement. An identifier that is only
alike counts as not changed.

A change that finds no document can bring one about. An update starts from the
fields that the filter asks for by plain values, keys taken as they are, and a
replacement takes at most its identifier from the filter.

A change is made at one instant, as an update is.
-/

namespace DocumentStore

inductive Change where
  | update (spec : Value)
  | replace (replacement : Value)
deriving DecidableEq

namespace Change

/-- What a change makes of a document, the identifier aside. -/
def content (now : Instant) (change : Change) (doc : Value) : Result Value :=
  match change with
  | .update spec => Update.apply now spec doc
  | .replace replacement =>
      if replacement.isObject then .ok replacement
      else .error (.typeMismatch .replacement)

/-- The place at which a dropped identifier is put back. -/
def idPlace (change : Change) (doc : Value) : Nat :=
  match change, doc with
  | .update _, .object fields => (Fields.position? idKey fields).getD 0
  | _, _ => 0

/-- The fields with the identifier that they have to have. -/
def restoreId (place : Nat) (id : Value) (fields : List (String × Value)) :
    List (String × Value) :=
  match Fields.get? idKey fields with
  | some new => if new.alike id then fields else Fields.insert idKey id fields
  | none => Fields.insertAt place idKey id fields

/-- The new version of a document. -/
def apply (now : Instant) (change : Change) (doc : Value) : Result Value := do
  let changed ← change.content now doc
  match doc.field? idKey, changed with
  | some id, .object fields =>
      .ok (.object (restoreId (change.idPlace doc) id fields))
  | _, changed => .ok changed

/-! ## Documents brought about -/

/-- Whether a field of a filter asks for a plain value. -/
def isSeed (entry : String × Value) : Bool :=
  !Fields.isOperator entry.1 && !entry.2.isArray && !entry.2.isPlainObject

/-- The fields of a filter that ask for plain values. -/
def seed : Value → Value
  | .object fields => .object (fields.filter isSeed)
  | _ => .object []

/-- Assign fields by their paths, in order. -/
def setFields : List (String × Value) → Value → Result Value
  | [], doc => .ok doc
  | (text, v) :: rest, doc => do
      let path ← Path.parse text
      let changed ← path.set v doc
      setFields rest changed

/-- A document with the identifier that a filter asks for, if it has none. -/
def withIdOf (filter : Value) (doc : Value) : Value :=
  match doc.field? idKey, filter.field? idKey, doc with
  | none, some id, .object fields =>
      if id.isObject then doc else .object (Fields.insertAt 0 idKey id fields)
  | _, _, _ => doc

/-- The document that a change brings about if a filter finds none. -/
def upsertDocument (now : Instant) (change : Change) (filter : Value) :
    Result Value :=
  match change with
  | .update spec => do
      let start ← setFields (Update.onInsert spec) (seed filter)
      Update.apply now spec start
  | .replace _ => do
      let doc ← change.apply now (.object [])
      .ok (withIdOf filter doc)

end Change

end DocumentStore
