import DocumentStore.Value.Wrapper

/-!
# Two equalities

Values are *alike* if they mean the same: numbers by value, dates by instant,
objects whatever the order of their fields. This is what filters and sets go
by.

They are the *same* if nothing but the order of fields tells them apart: an
integer is no double and a date is its text. This is how a change is told from
none.
-/

namespace DocumentStore.Value

mutual

def alike : Value → Value → Bool
  | .null, .null => true
  | .bool a, .bool b => a == b
  | .number m, .number n => m.alike n
  | .string s, .string t => s == t
  | .array xs, .array ys => alikeItems xs ys
  | .object xs, .object ys =>
      match asDate? (.object xs), asDate? (.object ys) with
      | some s, some t => s == t
      | _, _ => xs.length == ys.length && alikeFields xs ys
  | _, _ => false

def alikeItems : List Value → List Value → Bool
  | [], [] => true
  | x :: xs, y :: ys => alike x y && alikeItems xs ys
  | _, _ => false

/-- Every field of the first object is in the second, with a value alike. -/
def alikeFields : List (String × Value) → List (String × Value) → Bool
  | [], _ => true
  | (key, x) :: xs, ys =>
      (match Fields.get? key ys with
        | some y => alike x y
        | none => false) && alikeFields xs ys

end

mutual

def same : Value → Value → Bool
  | .null, .null => true
  | .bool a, .bool b => a == b
  | .number m, .number n => m.same n
  | .string s, .string t => s == t
  | .array xs, .array ys => sameItems xs ys
  | .object xs, .object ys => xs.length == ys.length && sameFields xs ys
  | _, _ => false

def sameItems : List Value → List Value → Bool
  | [], [] => true
  | x :: xs, y :: ys => same x y && sameItems xs ys
  | _, _ => false

/-- Every field of the first object is in the second, with the same value. -/
def sameFields : List (String × Value) → List (String × Value) → Bool
  | [], _ => true
  | (key, x) :: xs, ys =>
      (match Fields.get? key ys with
        | some y => same x y
        | none => false) && sameFields xs ys

end

/-- Whether one of the values is alike. -/
def isAmong (v : Value) (values : List Value) : Bool := values.any (·.alike v)

/-- Add a value to a list unless one alike is in it. -/
def addTo (values : List Value) (v : Value) : List Value :=
  if v.isAmong values then values else values ++ [v]

/-- The values without those that are alike to an earlier one. -/
def distinct (values : List Value) : List Value := values.foldl addTo []

end DocumentStore.Value
