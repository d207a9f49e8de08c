import DocumentStore.Path.Access
import DocumentStore.Value.Equality
import DocumentStore.Value.Kind
import DocumentStore.Value.Order

/-!
# Expressions

An expression is a value that is computed for a document, and it may have no
result. A string that starts with a dollar sign is the field at that path. An
object with one field may be an operator with its arguments, or, if its value is
one, the field at the path that is its key; a key with a dollar sign that is no
operator counts for nothing. All other objects, and arrays, are computed part by
part, and the rest stands for itself.

Arithmetic with null or with what is missing gives null.
-/

namespace DocumentStore.Expression

inductive Operator where
  | add
  | subtract
  | multiply
  | divide
  | concat
  | eq
  | ne
  | gt
  | gte
  | lt
  | lte
  | and
  | or
  | not
  | ifNull
deriving DecidableEq

/-- The operator with a name. -/
def Operator.ofName? : String → Option Operator
  | "$add" => some .add
  | "$subtract" => some .subtract
  | "$multiply" => some .multiply
  | "$divide" => some .divide
  | "$concat" => some .concat
  | "$eq" => some .eq
  | "$ne" => some .ne
  | "$gt" => some .gt
  | "$gte" => some .gte
  | "$lt" => some .lt
  | "$lte" => some .lte
  | "$and" => some .and
  | "$or" => some .or
  | "$not" => some .not
  | "$ifNull" => some .ifNull
  | _ => none

/-! ## Operators on results -/

/-- An argument of arithmetic: nothing for null and for what is missing. -/
def numeric (name : String) : Option Value → Result (Option Double)
  | none => .ok none
  | some .null => .ok none
  | some (.number n) => .ok (some n.toDouble)
  | some other => .error (.typeMismatch (.numericArgument name other))

/-- Take numbers together from left to right. Null ends it, and a result that is
out of range stays so. -/
def accumulate (name : String) (f : Double → Double → Option Double) :
    Option Double → List (Option Value) → Result Value
  | sofar, [] => .ok (.ofDouble? sofar)
  | sofar, argument :: rest => do
      match ← numeric name argument with
      | none => .ok .null
      | some x => accumulate name f (sofar.bind (f · x)) rest

/-- Join strings. Null ends it. -/
def concat : String → List (Option Value) → Result Value
  | sofar, [] => .ok (.string sofar)
  | _, none :: _ => .ok .null
  | _, some .null :: _ => .ok .null
  | sofar, some (.string s) :: rest => concat (sofar ++ s) rest
  | _, some other :: _ => .error (.typeMismatch (.concatArgument other))

/-- The two arguments of an operator that takes two. -/
def pair (name : String) :
    List (Option Value) → Result (Option Value × Option Value)
  | [x, y] => .ok (x, y)
  | arguments => .error (.aggregation (.arity name arguments.length))

/-- An operator on two numbers. -/
def onNumbers (name : String) (f : Double → Double → Value)
    (arguments : List (Option Value)) : Result Value := do
  let (x, y) ← pair name arguments
  let a ← numeric name x
  let b ← numeric name y
  match a, b with
  | some a, some b => .ok (f a b)
  | _, _ => .ok .null

/-- The quotient, which is null if the divisor is zero. -/
def quotient (a b : Double) : Value := .ofDouble? (a.div? b)

/-- Whether two results are alike. Two that are missing are. -/
def areAlike : Option Value → Option Value → Bool
  | some x, some y => x.alike y
  | none, none => true
  | _, _ => false

/-- Whether two results are in an order that is accepted. -/
def inOrder (accept : Ordering → Bool) (arguments : List (Option Value)) :
    Result Value := do
  let (x, y) ← pair "comparison" arguments
  .ok (.bool (accept (Value.sortCompare x y)))

/-- The first result that is there and not null. -/
def firstPresent (arguments : List (Option Value)) : Value :=
  ((arguments.filterMap id).find? fun v => !v.isNull).getD .null

/-- What an operator makes of the results of its arguments. -/
def Operator.apply (op : Operator) (arguments : List (Option Value)) :
    Result Value :=
  match op with
  | .add => accumulate "$add" Double.add? (some (Double.zero false)) arguments
  | .multiply => accumulate "$multiply" Double.mul? (Double.ofInt? 1) arguments
  | .subtract =>
      onNumbers "$subtract" (fun a b => .ofDouble? (a.sub? b)) arguments
  | .divide => onNumbers "$divide" quotient arguments
  | .concat => Expression.concat "" arguments
  | .eq => do
      let (x, y) ← pair "$eq" arguments
      .ok (.bool (areAlike x y))
  | .ne => do
      let (x, y) ← pair "$ne" arguments
      .ok (.bool (!areAlike x y))
  | .gt => inOrder (· == .gt) arguments
  | .gte => inOrder (· != .lt) arguments
  | .lt => inOrder (· == .lt) arguments
  | .lte => inOrder (· != .gt) arguments
  | .and => .ok (.bool (arguments.all Value.isTruthy))
  | .or => .ok (.bool (arguments.any Value.isTruthy))
  | .not => .ok (.bool (!Value.isTruthy (arguments.head?.bind id)))
  | .ifNull => .ok (firstPresent arguments)

/-! ## Results -/

/-- The field at the path after a dollar sign, or a text itself. A dollar sign
alone is a text. -/
def ofText (doc : Value) (text : String) : Result (Option Value) :=
  match text.toList with
  | '$' :: first :: rest => do
      let path ← Path.parse (String.ofList (first :: rest))
      .ok (path.get doc)
  | _ => .ok (some (.string text))

/-- A key without the dollar sign it may start with. -/
def withoutDollar (key : String) : String :=
  match key.toList with
  | '$' :: rest => String.ofList rest
  | _ => key

/-- Whether a value is the number one. -/
def isOne (v : Value) : Bool := v.asNumber?.any Number.isOne

/-- The field at the path that a key is. -/
def ofKey (doc : Value) (key : String) : Result (Option Value) := do
  let path ← Path.parse (withoutDollar key)
  .ok (path.get doc)

/-- Put a field with a result before others; one without is left out. -/
def putField (key : String) (result : Option Value)
    (fields : List (String × Value)) : List (String × Value) :=
  match result with
  | some r => (key, r) :: fields
  | none => fields

mutual

/-- The result of an expression for a document. -/
def eval (doc : Value) : Value → Result (Option Value)
  | .string text => ofText doc text
  | .array items => do
      let results ← evalItems doc items
      .ok (some (.array (results.map fun r => r.getD .null)))
  | .object [(key, v)] =>
      if Value.isDate (.object [(key, v)]) then .ok (some (.object [(key, v)]))
      else
        match Operator.ofName? key with
        | some op => do
            let arguments ← evalArguments doc v
            let result ← op.apply arguments
            .ok (some result)
        | none =>
            if isOne v then ofKey doc key
            else if Fields.isOperator key then eval doc v
            else do
              let result ← eval doc v
              .ok (some (.object (putField key result [])))
  | .object fields => do
      let results ← evalFields doc fields
      .ok (some (.object results))
  | .null => .ok (some .null)
  | .bool b => .ok (some (.bool b))
  | .number n => .ok (some (.number n))

/-- The results of arguments. What is no list is the only one. -/
def evalArguments (doc : Value) : Value → Result (List (Option Value))
  | .array items => evalItems doc items
  | single => do
      let result ← eval doc single
      .ok [result]

def evalItems (doc : Value) : List Value → Result (List (Option Value))
  | [] => .ok []
  | v :: rest => do
      let result ← eval doc v
      let results ← evalItems doc rest
      .ok (result :: results)

/-- The fields that have a result. -/
def evalFields (doc : Value) :
    List (String × Value) → Result (List (String × Value))
  | [] => .ok []
  | (key, v) :: rest => do
      let result ← eval doc v
      let results ← evalFields doc rest
      .ok (putField key result results)

end

end DocumentStore.Expression
