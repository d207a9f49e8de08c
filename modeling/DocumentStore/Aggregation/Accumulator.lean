import DocumentStore.Expression

/-!
# Accumulators

An accumulator takes the results of an expression for all documents of a group
together. Documents without a result are left out, except by those that look at
one document only.
-/

namespace DocumentStore.Aggregation

inductive AccumulatorKind where
  | sum
  | avg
  | min
  | max
  | first
  | last
  | push
  | addToSet
deriving DecidableEq

/-- The kind with a name. -/
def AccumulatorKind.ofName? : String → Option AccumulatorKind
  | "$sum" => some .sum
  | "$avg" => some .avg
  | "$min" => some .min
  | "$max" => some .max
  | "$first" => some .first
  | "$last" => some .last
  | "$push" => some .push
  | "$addToSet" => some .addToSet
  | _ => none

structure Accumulator where
  kind : AccumulatorKind
  expr : Value

/-- The results that there are, in order. -/
def results (expr : Value) : List Value → Result (List Value)
  | [] => .ok []
  | doc :: rest => do
      let result ← Expression.eval doc expr
      let others ← results expr rest
      .ok (result.toList ++ others)

/-! ## Sums -/

/-- A sum in the making: the integers among its terms as long as they stay in
the signed range, and a double for all others, if there is one. -/
structure Sum where
  whole : Int
  rest : Option Double
  hasRest : Bool

namespace Sum

def zero : Sum := ⟨0, some (Double.zero false), false⟩

/-- Add a number to the part that is a double. -/
def addDouble (sum : Sum) (n : Number) : Sum :=
  { sum with rest := sum.rest.bind (·.add? n.toDouble), hasRest := true }

/-- Add a value; what is no number counts for nothing. -/
def add (sum : Sum) (v : Value) : Sum :=
  match v with
  | .number n =>
      match n.asInt? with
      | some i =>
          let total := sum.whole + i
          if FitsSigned total then { sum with whole := total }
          else sum.addDouble n
      | none => sum.addDouble n
  | _ => sum

/-- The sum as a value: an integer unless a part is a double. -/
def value (sum : Sum) : Value :=
  if sum.hasRest then
    .ofDouble? (sum.rest.bind fun rest =>
      (Double.ofInt? sum.whole).bind (rest.add? ·))
  else .ofInt sum.whole

end Sum

/-- A number times a count. -/
def times (n : Number) (count : Nat) : Value :=
  let asDouble : Value :=
    .ofDouble? ((Double.ofInt? count).bind (n.toDouble.mul? ·))
  match n.asInt? with
  | some i =>
      let total := i * count
      if FitsSigned total then .ofInt total else asDouble
  | none => asDouble

/-- The sum of results. -/
def sum (values : List Value) : Value := (values.foldl Sum.add Sum.zero).value

/-- The mean of the numbers among results, and null if there is none. -/
def mean (values : List Value) : Value :=
  let numbers := values.filterMap Value.asDouble?
  if numbers.isEmpty then .null
  else
    let total := numbers.foldl (fun sum x => sum.bind (·.add? x))
      (some (Double.zero false))
    .ofDouble? (total.bind fun total =>
      (Double.ofInt? numbers.length).bind (total.div? ·))

/-! ## Extremes and sets -/

/-- The better one of a value and the best so far, which stays if both are
equal. Null is never the best. -/
def better (wanted : Ordering) (best : Option Value) (v : Value) :
    Option Value :=
  if v.isNull then best
  else
    match best with
    | none => some v
    | some current =>
        if Value.sortCompare (some v) (some current) =
          wanted then some v else best

/-- The first of the results that no other one beats, and null if all are. -/
def extreme (wanted : Ordering) (values : List Value) : Value :=
  (values.foldl (better wanted) none).getD .null

/-- The result for one document, and null without one. -/
def single (expr : Value) : Option Value → Result Value
  | none => .ok .null
  | some doc => do
      let result ← Expression.eval doc expr
      .ok (result.getD .null)

/-- What an accumulator makes of a group. A sum of a constant counts. -/
def Accumulator.compute (a : Accumulator) (docs : List Value) : Result Value :=
  match a.kind with
  | .sum =>
      match a.expr with
      | .number n => .ok (times n docs.length)
      | expr => sum <$> results expr docs
  | .avg => mean <$> results a.expr docs
  | .min => extreme .lt <$> results a.expr docs
  | .max => extreme .gt <$> results a.expr docs
  | .first => single a.expr docs.head?
  | .last => single a.expr docs.getLast?
  | .push => Value.array <$> results a.expr docs
  | .addToSet =>
      (fun values => .array (Value.distinct values)) <$> results a.expr docs

end DocumentStore.Aggregation
