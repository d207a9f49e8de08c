import DocumentStore.Fields
import DocumentStore.Number

/-!
# Values

What a document is made of: the six kinds of JSON, with integers and doubles
apart and the fields of an object in order.
-/

namespace DocumentStore

inductive Value where
  | null
  | bool (b : Bool)
  | number (n : Number)
  | string (s : String)
  | array (items : List Value)
  | object (fields : List (String × Value))

instance : Inhabited Value := ⟨.null⟩

/-- The key of a document's identifier. -/
def idKey : String := "_id"

namespace Value

/-- The value under a key of an object; nothing for every other kind. -/
def field? (key : String) : Value → Option Value
  | .object fields => Fields.get? key fields
  | _ => none

def asString? : Value → Option String
  | .string s => some s
  | _ => none

def asBool? : Value → Option Bool
  | .bool b => some b
  | _ => none

def asArray? : Value → Option (List Value)
  | .array items => some items
  | _ => none

def asObject? : Value → Option (List (String × Value))
  | .object fields => some fields
  | _ => none

def asNumber? : Value → Option Number
  | .number n => some n
  | _ => none

/-- The number as a double. -/
def asDouble? (v : Value) : Option Double := v.asNumber?.map Number.toDouble

/-- The number, if it is an integer in the signed range. -/
def asInt? (v : Value) : Option Int := v.asNumber?.bind Number.asInt?

/-- The number, if it is an integer and not negative. -/
def asNat? (v : Value) : Option Nat := v.asNumber?.bind Number.asNat?

/-- Whether a value is a number equal to zero. -/
def isZero (v : Value) : Bool := v.asNumber?.any Number.isZero

def isNull : Value → Bool
  | .null => true
  | _ => false

def isObject : Value → Bool
  | .object _ => true
  | _ => false

def isArray : Value → Bool
  | .array _ => true
  | _ => false

/-- An integer as a value. One that does not fit in 64 bits becomes the nearest
double. -/
def ofInt (n : Int) : Value :=
  match Number.ofInt? n with
  | some m => .number m
  | none => (Double.ofInt? n).elim .null (.number ∘ .double)

/-- A count as a value. -/
def ofNat (n : Nat) : Value := ofInt n

/-- The result of arithmetic as a value: nothing is `null`. -/
def ofDouble? : Option Double → Value
  | some x => .number (Number.ofDouble x)
  | none => .null

/-! ## Depth -/

mutual

/-- How many containers lie around the innermost value, itself included. -/
def depth : Value → Nat
  | .array items => depthOfItems items + 1
  | .object fields => depthOfFields fields + 1
  | .null | .bool _ | .number _ | .string _ => 0

def depthOfItems : List Value → Nat
  | [] => 0
  | v :: rest => max v.depth (depthOfItems rest)

def depthOfFields : List (String × Value) → Nat
  | [] => 0
  | (_, v) :: rest => max v.depth (depthOfFields rest)

end

end Value

end DocumentStore
