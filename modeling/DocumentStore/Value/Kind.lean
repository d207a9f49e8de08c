import DocumentStore.Value.Wrapper

/-!
# Kinds of values

What a value counts as in a condition, and the names of the kinds. A value has
the name of its primitive kind, where null and the containers are all objects,
and can have one by its structure besides.
-/

namespace DocumentStore.Value

/-- What counts as true: not a missing value, null, false, zero or an empty
string. -/
def isTruthy : Option Value → Bool
  | none => false
  | some .null => false
  | some (.bool b) => b
  | some (.number n) => !n.isZero
  | some (.string s) => !s.isEmpty
  | some (.array _) => true
  | some (.object _) => true

/-- The name of the primitive kind. -/
def primitiveKind : Value → String
  | .bool _ => "boolean"
  | .number _ => "number"
  | .string _ => "string"
  | .null => "object"
  | .array _ => "object"
  | .object _ => "object"

/-- Whether a value has a kind by its structure. -/
def hasStructure (v : Value) : String → Bool
  | "array" => v.isArray
  | "date" => v.isDate
  | "regex" => v.isPattern
  | "null" => v.isNull
  | "plainobject" => v.isObject && !v.isDate && !v.isPattern
  | "int" => v.asNumber?.any Number.isIntegral
  | "bool" => v.asBool?.isSome
  | _ => false

/-- Whether a value that may be missing is of the kind with this name. -/
def isOfKind (kind : String) : Option Value → Bool
  | none => kind == "undefined"
  | some v => v.primitiveKind == kind || v.hasStructure kind

end DocumentStore.Value
