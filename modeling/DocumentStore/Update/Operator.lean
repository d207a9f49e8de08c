/-!
# The operators of updates
-/

namespace DocumentStore.Update

inductive Operator where
  | set
  | unset
  | rename
  | setOnInsert
  | currentDate
  | inc
  | mul
  | min
  | max
  | bit
  | push
  | addToSet
  | pop
  | pull
  | pullAll
deriving DecidableEq

namespace Operator

/-- The operator with a name. -/
def ofName? : String → Option Operator
  | "$set" => some .set
  | "$unset" => some .unset
  | "$rename" => some .rename
  | "$setOnInsert" => some .setOnInsert
  | "$currentDate" => some .currentDate
  | "$inc" => some .inc
  | "$mul" => some .mul
  | "$min" => some .min
  | "$max" => some .max
  | "$bit" => some .bit
  | "$push" => some .push
  | "$addToSet" => some .addToSet
  | "$pop" => some .pop
  | "$pull" => some .pull
  | "$pullAll" => some .pullAll
  | _ => none

/-- The name of an operator. -/
def name : Operator → String
  | .set => "$set"
  | .unset => "$unset"
  | .rename => "$rename"
  | .setOnInsert => "$setOnInsert"
  | .currentDate => "$currentDate"
  | .inc => "$inc"
  | .mul => "$mul"
  | .min => "$min"
  | .max => "$max"
  | .bit => "$bit"
  | .push => "$push"
  | .addToSet => "$addToSet"
  | .pop => "$pop"
  | .pull => "$pull"
  | .pullAll => "$pullAll"

theorem ofName?_name (op : Operator) : ofName? op.name = some op := by
  cases op <;> rfl

end Operator

end DocumentStore.Update
