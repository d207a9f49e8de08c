import DocumentStore.Filter.Expr

/-!
# Filters

A filter is a value, read as a condition on another value that may be missing.
Three kinds of clauses are told apart.

* A scalar, or a date, asks for a value alike, or for an array with one alike
  among its elements.
* An array asks for an array of the same length whose elements fulfil its
  clauses one by one.
* Any other object asks for all of its fields: those named by an operator are
  about the value, the others about the field at that path.

The meaning of a clause is a test, put together from the tests of its parts.
Conditions are asked from left to right, and the first that fails or is not
fulfilled ends it: an unknown operator behind it does not matter.
-/

namespace DocumentStore.Filter

/-- The test of a clause that stands for itself. -/
def literal (clause : Value) : Test
  | none => .ok false
  | some v =>
      .ok (v.alike clause ||
        match v with
        | .array items => clause.isAmong items
        | _ => false)

/-! ## Tests made of tests -/

/-- Two conditions, the second asked only if the first is fulfilled. -/
def both (first second : Test) : Test := fun value => do
  if ← first value then second value else .ok false

/-- All conditions, in order. -/
def allOf : List Test → Test
  | [] => fun _ => .ok true
  | test :: rest => both test (allOf rest)

/-- One of the conditions, in order. -/
def anyOf : List Test → Test
  | [] => fun _ => .ok false
  | test :: rest => fun value => do
      if ← test value then .ok true else anyOf rest value

/-- A condition that is not fulfilled. -/
def negation (test : Test) : Test := fun value => (! ·) <$> test value

/-- One condition for each of some values. -/
def pairwise : List Test → List Value → Result Bool
  | test :: tests, v :: rest => do
      if ← test (some v) then pairwise tests rest else .ok false
  | _, _ => .ok true

/-- One condition for each element of an array. -/
def elementwise (tests : List Test) : Test
  | some (.array items) =>
      if items.length = tests.length then pairwise tests items else .ok false
  | _ => .ok false

/-- One condition for every element of an array. -/
def everyElement (test : Test) : List Value → Result Bool
  | [] => .ok true
  | v :: rest => do
      if ← test (some v) then everyElement test rest else .ok false

/-- The test of `$all`: each clause of a list is about the whole value, and what
is no list is about every element of an array. -/
def requireAll (operand : Value) (clause : Test) (members : List Test) : Test :=
  if operand.isArray then allOf members
  else fun value =>
    match value with
    | some (.array items) => everyElement clause items
    | other => clause other

/-- A test of a list of clauses, which has to be a list. -/
def ofList (name : String) (operand : Value) (test : Test) : Test :=
  if operand.isArray then test else fun _ =>
    .error (.invalidQuery (.clauseList name))

/-- The test of `$type`. -/
def ofKind (operand : Value) : Test := fun value =>
  match operand with
  | .string kind => .ok (Value.isOfKind kind value)
  | _ => .error (.invalidQuery .kindTag)

/-- The test of `$regex`, whose options stand beside it. -/
def search (siblings : List (String × Value)) (operand : Value) : Test :=
  fun value => do
  let p ← compile operand (Fields.get? Value.optionsKey siblings)
  .ok (isFound p value)

/-- The test of an operator. Its operand is given three times: as a value, by
the test it is as a clause, and by the tests of its elements if it is a list. -/
def Operator.test (op : Operator) (siblings : List (String × Value))
    (operand : Value) (clause : Test) (members : List Test) : Test :=
  match op with
  | .comparison c => c.test operand
  | .present =>
      overElements fun value =>
        .ok (value.isSome == Value.isTruthy (some operand))
  | .kind => overElements (ofKind operand)
  | .all => requireAll operand clause members
  | .elemMatch => overElements clause
  | .size => fun value =>
      match value with
      | some (.array items) => clause (some (.ofNat items.length))
      | _ => .ok false
  | .regex => overElements (search siblings operand)
  | .options => fun _ => .ok true
  | .expr => overElements fun value =>
      match value with
      | some doc => Expr.holds doc operand
      | none => .ok false
  | .and => overElements (ofList "$and" operand (allOf members))
  | .or => overElements (ofList "$or" operand (anyOf members))
  | .not => overElements (negation clause)
  | .nor => overElements (ofList "$nor" operand (negation (anyOf members)))

/-- What a path leads to in a value that may be missing. The path is read only
if there is a value. -/
def childAt (key : String) : Option Value → Result (Option Value)
  | none => .ok none
  | some v => do
      let path ← Path.parse key
      .ok (path.get v)

/-- The test of one field of a clause. -/
def condition (siblings : List (String × Value)) (key : String)
    (operand : Value) (clause : Test) (members : List Test) :
    Test := fun value =>
  if Fields.isOperator key then
    match Operator.ofName? key with
    | some op => op.test siblings operand clause members value
    | none => .error (.unknownOperator key)
  else do
    let child ← childAt key value
    if operand.isArray || operand.isPlainObject then clause child
    else Comparison.eq.test operand child

/-! ## The meaning of a clause -/

mutual

/-- Whether a value that may be missing fulfils a clause. -/
def holds : Value → Option Value → Result Bool
  | .array clauses, value => elementwise (testsOfItems clauses) value
  | .object fields, value =>
      if Value.isDate (.object fields) then literal (.object fields) value
      else holdsFields fields fields value
  | .null, value => literal .null value
  | .bool b, value => literal (.bool b) value
  | .number n, value => literal (.number n) value
  | .string s, value => literal (.string s) value

/-- The tests that clauses are. -/
def testsOfItems : List Value → List Test
  | [] => []
  | clause :: rest => holds clause :: testsOfItems rest

/-- The tests of the elements of a list. -/
def testsOfMembers : Value → List Test
  | .array clauses => testsOfItems clauses
  | _ => []

/-- Whether a value fulfils some of the fields of a clause, `siblings` being all
of them. -/
def holdsFields (siblings : List (String × Value)) :
    List (String × Value) → Option Value → Result Bool
  | [], _ => .ok true
  | (key, operand) :: rest, value =>
      both (condition siblings key operand (holds operand)
          (testsOfMembers operand))
        (holdsFields siblings rest) value

end

/-! ## Filters of documents -/

/-- The clause that a filter is: an object, or null for the one that everything
fulfils. -/
def ofValue : Value → Result Value
  | .object fields => .ok (.object fields)
  | .null => .ok (.object [])
  | other => .error (.invalidQuery (.filter other))

/-- Whether a document fulfils a clause. -/
def isMatch (clause doc : Value) : Result Bool := holds clause (some doc)

/-- The documents that fulfil a clause, in order. -/
def select (clause : Value) : List Value → Result (List Value)
  | [] => .ok []
  | doc :: rest => do
      if ← isMatch clause doc then
        let others ← select clause rest
        .ok (doc :: others)
      else select clause rest

end DocumentStore.Filter
