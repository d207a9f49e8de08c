import DocumentStore.Path.Access
import DocumentStore.Value.Order

/-!
# Sorting documents

Documents are sorted by the value at a path, in the order in which a missing
value comes first, or in the reverse of it. Documents that are equal by it keep
their order, whichever of the two it is.
-/

namespace DocumentStore

/-- What documents are sorted by. -/
structure SortKey where
  path : Path
  descending : Bool
deriving DecidableEq

namespace SortKey

/-- The order of two documents. -/
def compare (key : SortKey) (a b : Value) : Ordering :=
  let ascending := Value.sortCompare (key.path.get a) (key.path.get b)
  if key.descending then ascending.swap else ascending

/-- The documents in order. -/
def sort (key : SortKey) (docs : List Value) : List Value :=
  docs.mergeSort fun a b => key.compare a b != .gt

/-- Whether a number, by its sign, asks for the descending order. -/
def descending? (direction : Value) : Option Bool :=
  match direction with
  | .number n =>
      if n.isPositive then some false
      else if n.isNegative then some true
      else none
  | _ => none

end SortKey

/-- A sort by one field, whose path is read only when it is used. -/
structure SortSpec where
  field : String
  descending : Bool
deriving DecidableEq

namespace SortSpec

/-- The sort that a text asks for: a hyphen before the field is for the
descending order. -/
def parse (text : String) : Result SortSpec :=
  let spec : SortSpec := match text.toList with
    | '-' :: rest => ⟨String.ofList rest, true⟩
    | _ => ⟨text, false⟩
  if spec.field.isEmpty then .error (.invalidQuery (.sortText text))
  else .ok spec

/-- The sort that a value asks for: a text, or an object whose first field is
the one to sort by. -/
def ofValue : Value → Result SortSpec
  | .string text => parse text
  | .object [] => .error (.invalidQuery .emptySort)
  | .object ((field, direction) :: _) =>
      match SortKey.descending? direction with
      | some descending => .ok ⟨field, descending⟩
      | none => .error (.invalidQuery (.sortDirection field))
  | other => .error (.invalidQuery (.sortValue other))

/-- The documents in order. -/
def sort (spec : SortSpec) (docs : List Value) : Result (List Value) := do
  let path ← Path.parse spec.field
  .ok (SortKey.sort ⟨path, spec.descending⟩ docs)

end SortSpec

end DocumentStore
