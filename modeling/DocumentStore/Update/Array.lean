import DocumentStore.Filter
import DocumentStore.Update.Operator

/-!
# Arrays in fields

The operators on arrays want the field to hold an array. Those that add make one
if the field is missing, those that take away then leave it missing.
-/

namespace DocumentStore.Update

/-- The array in a field, if the field is there. -/
def existingArray (op : Operator) (path : String) :
    Option Value → Result (Option (List Value))
  | none => .ok none
  | some (.array items) => .ok (some items)
  | some other => .error (.typeMismatch (.notArray op.name path other))

/-- The values that an operand adds: those listed under `$each`, or itself. -/
def addedItems (operand : Value) : List Value :=
  match operand.field? "$each" with
  | some (.array items) => items
  | some single => [single]
  | none => [operand]

/-- Add to the end of an array. -/
def push (items : List Value) (operand : Value) : List Value :=
  items ++ addedItems operand

/-- Add what is not alike to anything in the array, one after another. -/
def addToSet (items : List Value) (operand : Value) : List Value :=
  (addedItems operand).foldl Value.addTo items

/-- Take away the last item for 1 and the first one for -1. -/
def pop (path : String) (operand : Value) (items : List Value) :
    Result (List Value) :=
  if operand.asInt? = some 1 then .ok items.dropLast
  else if operand.asInt? = some (-1) then .ok (items.drop 1)
  else .error (.typeMismatch (.popCount path operand))

/-- Whether an item is to be taken away. An object with operators is a filter;
one without asks for its fields; everything else has to be alike. -/
def isPulled (condition item : Value) : Result Bool :=
  match condition with
  | .object fields =>
      if condition.isDate then .ok (item.alike condition)
      else if fields.any fun (key, _) => Fields.isOperator key then
        Filter.isMatch condition item
      else
        match item with
        | .object found =>
            .ok (fields.all fun (key, v) =>
              (Fields.get? key found).any (·.alike v))
        | _ => .ok false
  | _ => .ok (item.alike condition)

/-- The items that are not to be taken away. -/
def pull (condition : Value) : List Value → Result (List Value)
  | [] => .ok []
  | item :: rest => do
      let pulled ← isPulled condition item
      let kept ← pull condition rest
      .ok (if pulled then kept else item :: kept)

/-- The items that are alike to none of some values. -/
def pullAll (removals items : List Value) : List Value :=
  items.filter fun item => !removals.any (item.alike ·)

end DocumentStore.Update
