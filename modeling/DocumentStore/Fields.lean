/-!
# Fields in order

An object is a list of keys with values. The order is part of it: a field that
is assigned again keeps its place, a new one goes last, and taking one away
leaves the others as they were. Where a key stands twice, which no operation
here brings about, the first one counts.
-/

namespace DocumentStore.Fields

universe u
variable {α : Type u}

def keys (fields : List (String × α)) : List String := fields.map (·.1)

/-- Whether a key names an operator: then it starts with a dollar sign. -/
def isOperator (key : String) : Bool := key.toList.head? == some '$'

/-- The value under a key. -/
def get? (key : String) : List (String × α) → Option α
  | [] => none
  | (k, v) :: rest => if k = key then some v else get? key rest

/-- Assign a key: in its place if it is there, and last otherwise. -/
def insert (key : String) (value : α) : List (String × α) → List (String × α)
  | [] => [(key, value)]
  | (k, v) :: rest =>
      if k = key then (k, value) :: rest else (k, v) :: insert key value rest

/-- Take a key away. -/
def erase (key : String) : List (String × α) → List (String × α)
  | [] => []
  | (k, v) :: rest => if k = key then rest else (k, v) :: erase key rest

/-- Change the value under a key, if there is one. -/
def modify (key : String) (f : α → α) : List (String × α) → List (String × α)
  | [] => []
  | (k, v) :: rest =>
      if k = key then (k, f v) :: rest else (k, v) :: modify key f rest

/-- Whether a key is there. -/
def contains (key : String) (fields : List (String × α)) : Bool :=
  (get? key fields).isSome

/-- Assign every field of `more` in turn. -/
def merge (fields more : List (String × α)) : List (String × α) :=
  more.foldl (fun acc (key, value) => insert key value acc) fields

/-- The place of a key, counted from the front. -/
def position? (key : String) (fields : List (String × α)) : Option Nat :=
  fields.findIdx? (fun (k, _) => k = key)

/-- Put a key at a place, or last if there are fewer fields. It is meant for a
key that is not there. -/
def insertAt (place : Nat) (key : String) (value : α)
    (fields : List (String × α)) : List (String × α) :=
  fields.insertIdx (min place fields.length) (key, value)

end DocumentStore.Fields
