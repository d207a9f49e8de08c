import DocumentStore.Error
import DocumentStore.Update.Operator

/-!
# Arithmetic on fields

A field that is missing or null counts as zero. Two integers in the signed range
whose result is in it too give that integer; all other numbers are taken as
doubles.

Bits are those of the integers of 64 bits with sign. The masks are applied in a
fixed order, whatever the order in which they are given: and, or, exclusive or.
-/

namespace DocumentStore.Update

/-- The new value of a field under an operation on integers and on doubles. -/
def arithmetic (op : Operator) (path : String) (onInts : Int → Int → Int)
    (onDoubles : Double → Double → Option Double) (operand : Value)
    (current : Option Value) : Result Value :=
  let current : Value := match current with
    | none => .ofInt 0
    | some .null => .ofInt 0
    | some v => v
  match current.asDouble?, operand.asDouble? with
  | none, _ => .error (.typeMismatch (.notNumeric op.name path current))
  | some _, none => .error (.typeMismatch (.numericOperand op.name path))
  | some a, some b =>
      match current.asInt?, operand.asInt? with
      | some x, some y =>
          let n := onInts x y
          .ok (if FitsSigned n then .ofInt n else .ofDouble? (onDoubles a b))
      | _, _ => .ok (.ofDouble? (onDoubles a b))

/-- An operation on 64 bits as one on integers. -/
def onBits (f : BitVec 64 → BitVec 64 → BitVec 64) (a b : Int) : Int :=
  (f (BitVec.ofInt 64 a) (BitVec.ofInt 64 b)).toInt

/-- Apply the mask with a name, if there is one. -/
def applyMask (path name : String) (f : BitVec 64 → BitVec 64 → BitVec 64)
    (masks : List (String × Value)) (bits : Int) : Result Int :=
  match Fields.get? name masks with
  | none => .ok bits
  | some v =>
      match v.asInt? with
      | some mask => .ok (onBits f bits mask)
      | none => .error (.typeMismatch (.bitMask name path))

/-- The new value of a field under masks. -/
def bitwise (path : String) (operand : Value) (current : Option Value) :
    Result Value := do
  let bits ← match current with
    | none => .ok 0
    | some v =>
        match v.asInt? with
        | some n => .ok n
        | none => .error (.typeMismatch (.bitField path))
  match operand with
  | .object masks => do
      let bits ← applyMask path "and" (· &&& ·) masks bits
      let bits ← applyMask path "or" (· ||| ·) masks bits
      let bits ← applyMask path "xor" (· ^^^ ·) masks bits
      .ok (.ofInt bits)
  | _ => .error (.typeMismatch (.bitOperand path))

end DocumentStore.Update
