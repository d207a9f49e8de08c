import DocumentStore.Filter.Comparison

/-!
# The operators of filters
-/

namespace DocumentStore.Filter

inductive Operator where
  | comparison (c : Comparison)
  | present
  | kind
  | all
  | elemMatch
  | size
  | regex
  | options
  | expr
  | and
  | or
  | not
  | nor
deriving DecidableEq

/-- The operator with a name. -/
def Operator.ofName? : String → Option Operator
  | "$eq" => some (.comparison .eq)
  | "$ne" => some (.comparison .ne)
  | "$gt" => some (.comparison .gt)
  | "$gte" => some (.comparison .gte)
  | "$lt" => some (.comparison .lt)
  | "$lte" => some (.comparison .lte)
  | "$in" => some (.comparison .oneOf)
  | "$nin" => some (.comparison .noneOf)
  | "$exists" => some .present
  | "$type" => some .kind
  | "$all" => some .all
  | "$elemMatch" => some .elemMatch
  | "$size" => some .size
  | "$regex" => some .regex
  | "$options" => some .options
  | "$expr" => some .expr
  | "$and" => some .and
  | "$or" => some .or
  | "$not" => some .not
  | "$nor" => some .nor
  | _ => none

end DocumentStore.Filter
