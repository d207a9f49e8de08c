import DocumentStore.Filter.Search
import DocumentStore.Value.Equality
import DocumentStore.Value.Order

/-!
# Tests and comparisons

A test asks something of a value that may be missing, and it may fail. Most
tests of an array ask its elements: one has to pass, and elements that are
arrays themselves are asked in the same way.

The comparisons are the tests that put a value beside another one. `$ne` is the
exception among them: an array passes it if none of its elements is alike.
-/

namespace DocumentStore.Filter

abbrev Test := Option Value → Result Bool

mutual

/-- Ask the elements of an array, in order, until one passes. -/
def spread (test : Test) : Value → Result Bool
  | .array items => spreadItems test items
  | v => test (some v)

def spreadItems (test : Test) : List Value → Result Bool
  | [] => .ok false
  | v :: rest => do
      if ← spread test v then .ok true else spreadItems test rest

end

/-- The test that asks the elements of an array and every other value itself. -/
def overElements (test : Test) : Test
  | none => test none
  | some v => spread test v

inductive Comparison where
  | eq
  | ne
  | gt
  | gte
  | lt
  | lte
  | oneOf
  | noneOf
deriving DecidableEq

/-- Whether a value and the operand can be compared and are in an order that is
accepted. -/
def inOrder (accept : Ordering → Bool) (operand : Value)
    (value : Option Value) : Bool :=
  (value.bind (Value.compare? · operand)).any accept

/-- Whether one of the candidates is alike or, if it is a pattern, is found. -/
def isOneOf (v : Value) : List Value → Result Bool
  | [] => .ok false
  | candidate :: rest =>
      if candidate.isPattern then
        match v with
        | .string _ => do
            let p ← compile ((candidate.field? Value.patternKey).getD .null)
              (candidate.field? Value.optionsKey)
            if isFound p (some v) then .ok true else isOneOf v rest
        | _ => isOneOf v rest
      else if v.alike candidate then .ok true
      else isOneOf v rest

/-- The candidates that an operand lists. What is no list is the only one. -/
def candidates : Value → List Value
  | .array items => items
  | v => [v]

/-- Whether a value is one of those that an operand lists. A missing one is
none of them. -/
def isListed (operand : Value) : Option Value → Result Bool
  | none => .ok false
  | some v => isOneOf v (candidates operand)

/-- The test of a comparison. -/
def Comparison.test (c : Comparison) (operand : Value) : Test :=
  match c with
  | .ne => fun value =>
      match value with
      | none => .ok true
      | some (.array items) => .ok (!operand.isAmong items)
      | some v => .ok (!v.alike operand)
  | .eq => overElements fun value => .ok (value.any (·.alike operand))
  | .gt => overElements fun value => .ok (inOrder (· == .gt) operand value)
  | .gte => overElements fun value => .ok (inOrder (· != .lt) operand value)
  | .lt => overElements fun value => .ok (inOrder (· == .lt) operand value)
  | .lte => overElements fun value => .ok (inOrder (· != .gt) operand value)
  | .oneOf => overElements (isListed operand)
  | .noneOf => overElements fun value => (! ·) <$> isListed operand value

end DocumentStore.Filter
