import DocumentStore.Update.Arithmetic
import DocumentStore.Update.Array

/-!
# Updates

An update is an object. If one of its keys is an operator, every key is one,
with an object of paths and operands, and operators that are not known count for
nothing; otherwise it assigns its fields. Fields are changed one after another,
each change seeing the ones before it, and the first one that fails ends it all.

Most operators come down to a new value for the field, found from the one it
has; only removing and renaming do more than write one place.

The current time is one instant, `now`, for all fields of an update. A clock
that is read for each field anew may have moved on between two of them; what is
proved about updates at one instant is about a clock that stands still for so
long.
-/

namespace DocumentStore.Update

/-- Whether an update has operators. -/
def hasOperators : Value → Bool
  | .object fields => fields.any fun (key, _) => Fields.isOperator key
  | _ => false

/-- The value that `$min` and `$max` write: the operand, if it stands in the
order that is wanted to the value there is. -/
def extreme (wanted : Ordering) (operand : Value) : Option Value → Option Value
  | none => some operand
  | some current =>
      if Value.compare? operand current =
        some wanted then some operand else none

/-- The new value of the field at a path, or nothing if it stays as it is. -/
def newValue (now : Instant) (op : Operator) (path : String) (operand : Value)
    (current : Option Value) : Result (Option Value) :=
  match op with
  | .set => .ok (some operand)
  | .currentDate => .ok (some (.ofDate now))
  | .inc => some <$> arithmetic op path (· + ·) Double.add? operand current
  | .mul => some <$> arithmetic op path (· * ·) Double.mul? operand current
  | .min => .ok (extreme .lt operand current)
  | .max => .ok (extreme .gt operand current)
  | .bit => some <$> bitwise path operand current
  | .push => do
      let items ← existingArray op path current
      .ok (some (.array (push (items.getD []) operand)))
  | .addToSet => do
      let items ← existingArray op path current
      .ok (some (.array (addToSet (items.getD []) operand)))
  | .pop => do
      match ← existingArray op path current with
      | none => .ok none
      | some items => do
          let kept ← pop path operand items
          .ok (some (.array kept))
  | .pull => do
      match ← existingArray op path current with
      | none => .ok none
      | some items => do
          let kept ← pull operand items
          .ok (some (.array kept))
  | .pullAll =>
      match operand with
      | .array removals => do
          let items ← existingArray op path current
          .ok (items.map fun items => .array (pullAll removals items))
      | _ => .error (.typeMismatch (.pullAllValues path))
  | .unset => .ok none
  | .rename => .ok none
  | .setOnInsert => .ok none

/-- Move what is at one path to another. -/
def rename (path : String) (source : Path) (operand doc : Value) :
    Result Value :=
  match operand with
  | .string text => do
      let target ← Path.parse text
      match source.remove doc with
      | (some moved, left) => target.set moved left
      | (none, _) => .ok doc
  | _ => .error (.typeMismatch (.renameTarget path))

/-- Apply an operator to the field at a path. -/
def applyField (now : Instant) (op : Operator) (path : String)
    (operand doc : Value) : Result Value := do
  let field ← Path.parse path
  match op with
  | .unset => .ok (field.remove doc).2
  | .rename => rename path field operand doc
  | op =>
      match ← newValue now op path operand (field.get doc) with
      | some new => field.set new doc
      | none => .ok doc

/-- Apply an operator to all fields of its operand, in order. -/
def applyFields (now : Instant) (op : Operator) :
    List (String × Value) → Value → Result Value
  | [], doc => .ok doc
  | (path, operand) :: rest, doc => do
      let changed ← applyField now op path operand doc
      applyFields now op rest changed

/-- Apply the operators of an update, in order. -/
def applyOperators (now : Instant) :
    List (String × Value) → Value → Result Value
  | [], doc => .ok doc
  | (name, operand) :: rest, doc =>
      match Operator.ofName? name with
      | none => applyOperators now rest doc
      | some op =>
          match operand with
          | .object fields => do
              let changed ← applyFields now op fields doc
              applyOperators now rest changed
          | _ => .error (.typeMismatch (.operatorFields name))

/-- The document that an update makes of a document. -/
def apply (now : Instant) (spec doc : Value) : Result Value :=
  if !doc.isObject then .error (.typeMismatch .updateTarget)
  else
    match spec with
    | .object fields =>
        if hasOperators spec then applyOperators now fields doc
        else applyFields now .set fields doc
    | .array _ => .error (.typeMismatch .updatePipeline)
    | other => .error (.typeMismatch (.updateSpec other))

/-- The fields that an update assigns to a document it brings about. -/
def onInsert (spec : Value) : List (String × Value) :=
  ((spec.field? "$setOnInsert").bind Value.asObject?).getD []

end DocumentStore.Update
