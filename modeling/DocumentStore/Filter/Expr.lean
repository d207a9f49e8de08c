import DocumentStore.Filter.Operator
import DocumentStore.Path.Access
import DocumentStore.Value.Kind

/-!
# Computed conditions

The operand of `$expr` computes with the fields of a document. A string that
starts with a dollar sign is the field at that path, an object with one field
may be a function, and everything else stands for itself. A comparison of two
such values is a condition; any other value is one by its truth.

What a function makes of a value that is no number is null. The function
`divide` takes the second number away from the first.
-/

namespace DocumentStore.Filter

namespace Expr

inductive Function where
  | add
  | divide
  | cmp
  | pow
  | sqrt
  | ceil
  | floor
  | abs
deriving DecidableEq

/-- The function with a name, whatever number of dollar signs it starts with. -/
def Function.ofName? (name : String) : Option Function :=
  match String.ofList (name.toList.dropWhile (· = '$')) with
  | "add" => some .add
  | "divide" => some .divide
  | "cmp" => some .cmp
  | "pow" => some .pow
  | "sqrt" => some .sqrt
  | "ceil" => some .ceil
  | "floor" => some .floor
  | "abs" => some .abs
  | _ => none

/-- The name of a function in messages, if it takes two arguments. -/
def Function.binaryName? : Function → Option String
  | .add => some "Add"
  | .divide => some "Divide"
  | .cmp => some "Cmp"
  | .pow => some "Pow"
  | _ => none

/-- The order of two values as a number. Values that cannot be compared count as
equal, and a missing one comes first. -/
def order : Option Value → Option Value → Int
  | some a, some b =>
      match Value.compare? a b with
      | some .lt => -1
      | some .gt => 1
      | _ => 0
  | none, some _ => -1
  | some _, none => 1
  | none, none => 0

/-- What a function of two arguments makes of them. -/
def binary (f : Function) (x y : Option Value) : Value :=
  if f = .cmp then .ofInt (order x y)
  else
    match x.bind Value.asDouble?, y.bind Value.asDouble? with
    | some a, some b =>
        match f with
        | .add => .ofDouble? (a.add? b)
        | .divide => .ofDouble? (a.sub? b)
        | _ => .ofDouble? (a.pow? b)
    | _, _ => .null

/-- What a function of one argument makes of it. -/
def unary (f : Function) (x : Option Value) : Value :=
  match x.bind Value.asDouble? with
  | none => .null
  | some a =>
      match f with
      | .sqrt => .ofDouble? a.sqrt?
      | .ceil => .ofDouble? (Double.ofInt? a.ceil)
      | .floor => .ofDouble? (Double.ofInt? a.floor)
      | _ => .ofDouble? (some a.abs)

/-- The field at the path after a dollar sign, or a text itself. -/
def ofText (doc : Value) (text : String) : Result (Option Value) :=
  match text.toList with
  | '$' :: rest => do
      let path ← Path.parse (String.ofList rest)
      .ok (path.get doc)
  | _ => .ok (some (.string text))

/-- Apply the function with a name to what its argument stands for: `whole` is
the argument as one value and `members` are the elements of a list. -/
def apply (name : String) (argument : Value) (whole : Result (Option Value))
    (members : List (Result (Option Value))) : Result (Option Value) :=
  match Function.ofName? name with
  | none =>
      if Fields.isOperator name then .error (.unknownOperator name)
      else .ok (some (.object [(name, argument)]))
  | some f =>
      match f.binaryName? with
      | some title =>
          match members with
          | [first, second] => do
              let x ← first
              let y ← second
              .ok (some (binary f x y))
          | _ => .error (.invalidQuery (.twoArguments title))
      | none => do
          let x ← match members with
            | [only] => only
            | _ => whole
          .ok (some (unary f x))

mutual

/-- The value of an expression, if it has one. -/
def value (doc : Value) : Value → Result (Option Value)
  | .string text => ofText doc text
  | .object [(name, argument)] =>
      apply name argument (value doc argument) (memberValues doc argument)
  | v => .ok (some v)

/-- The values of the elements of a list. -/
def memberValues (doc : Value) : Value → List (Result (Option Value))
  | .array items => itemValues doc items
  | _ => []

def itemValues (doc : Value) : List Value → List (Result (Option Value))
  | [] => []
  | v :: rest => value doc v :: itemValues doc rest

end

/-- The comparison with two sides that an expression is, if it is one. -/
def asComparison? : Value → Option (Comparison × Value × Value)
  | .object [(name, .array [left, right])] =>
      match Operator.ofName? name with
      | some (.comparison c) => some (c, left, right)
      | _ => none
  | _ => none

/-- Whether a document fulfils an expression. -/
def holds (doc e : Value) : Result Bool :=
  match asComparison? e with
  | some (c, left, right) => do
      let x ← value doc left
      let y ← value doc right
      c.test (y.getD .null) x
  | none => do
      let v ← value doc e
      .ok (Value.isTruthy v)

end Expr

end DocumentStore.Filter
