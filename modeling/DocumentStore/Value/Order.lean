import DocumentStore.Value.Wrapper

/-!
# Two orders

Two values can be compared if both are numbers, strings, booleans or dates.
Strings are compared by code points, and `false` comes before `true`.

To sort, every two values have to be comparable, and so has a missing one: it
comes first, then come the kinds in a fixed order, and within a kind whatever
cannot be compared counts as equal.
-/

namespace DocumentStore.Value

/-- The order of two values that can be compared. -/
def compare? : Value → Value → Option Ordering
  | .number m, .number n => some (compare m.units n.units)
  | .string s, .string t => some (compare s t)
  | .bool a, .bool b => some (compare a b)
  | .object xs, .object ys =>
      match asDate? (.object xs), asDate? (.object ys) with
      | some s, some t => some (s.compare t)
      | _, _ => none
  | _, _ => none

/-- The place of a kind among the kinds. -/
def rank : Value → Nat
  | .null => 0
  | .number _ => 1
  | .string _ => 2
  | .object fields =>
      if isDate (.object fields) then 6
      else if isPattern (.object fields) then 7
      else 3
  | .array _ => 4
  | .bool _ => 5

/-- The order of sorts. -/
def sortCompare : Option Value → Option Value → Ordering
  | none, none => .eq
  | none, some _ => .lt
  | some _, none => .gt
  | some a, some b =>
      if a.rank = b.rank then (compare? a b).getD .eq else compare a.rank b.rank

end DocumentStore.Value
