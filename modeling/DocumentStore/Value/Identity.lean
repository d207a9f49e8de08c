import DocumentStore.Value

/-!
# Equality of values, decided

`Value.identical` compares part by part, order of fields and kind of number
included, and `identical_iff` says that this is equality. So a statement about
closed values can be evaluated.
-/

namespace DocumentStore.Value

mutual

def identical : Value → Value → Bool
  | .null, .null => true
  | .bool a, .bool b => a == b
  | .number m, .number n => decide (m = n)
  | .string s, .string t => decide (s = t)
  | .array xs, .array ys => identicalItems xs ys
  | .object xs, .object ys => identicalFields xs ys
  | _, _ => false

def identicalItems : List Value → List Value → Bool
  | [], [] => true
  | x :: xs, y :: ys => identical x y && identicalItems xs ys
  | _, _ => false

def identicalFields : List (String × Value) → List (String × Value) → Bool
  | [], [] => true
  | (k, x) :: xs, (l, y) :: ys =>
      decide (k = l) && identical x y && identicalFields xs ys
  | _, _ => false

end

mutual

theorem identical_iff : (a b : Value) → (identical a b = true ↔ a = b)
  | .null, b => by cases b <;> simp [identical]
  | .bool _, b => by cases b <;> simp [identical]
  | .number _, b => by cases b <;> simp [identical]
  | .string _, b => by cases b <;> simp [identical]
  | .array xs, b => by
      cases b with
      | array ys => simpa [identical] using identicalItems_iff xs ys
      | _ => simp [identical]
  | .object xs, b => by
      cases b with
      | object ys => simpa [identical] using identicalFields_iff xs ys
      | _ => simp [identical]

theorem identicalItems_iff :
    (xs ys : List Value) → (identicalItems xs ys = true ↔ xs = ys)
  | [], ys => by cases ys <;> simp [identicalItems]
  | x :: xs, [] => by simp [identicalItems]
  | x :: xs, y :: ys => by
      simp [identicalItems, identical_iff x y, identicalItems_iff xs ys]

theorem identicalFields_iff :
    (xs ys : List (String × Value)) → (identicalFields xs ys = true ↔ xs = ys)
  | [], ys => by cases ys <;> simp [identicalFields]
  | (k, x) :: xs, [] => by simp [identicalFields]
  | (k, x) :: xs, (l, y) :: ys => by
      simp [identicalFields, identical_iff x y,
        identicalFields_iff xs ys, and_assoc]

end

instance : DecidableEq Value :=
  fun a b => decidable_of_iff _ (identical_iff a b)

end DocumentStore.Value
