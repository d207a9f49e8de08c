import DocumentStore.Filter
import DocumentStore.Proofs.Change

/-!
# Filters that ask for a string as the identifier

A filter whose only field is the identifier, with a string, finds the documents
with that identifier. But an equality asked of an array is asked of its
elements, and of the elements of those, so the filter finds a document too if
its identifier is an array with the string somewhere within. `isMatch_id` says
exactly this.
-/

namespace DocumentStore

namespace Value

mutual

/-- The values that a test of a value is asked of: the elements of an array, and
of the arrays among them, and any other value itself. -/
def leaves : Value → List Value
  | .array items => leavesOfItems items
  | .null => [.null]
  | .bool b => [.bool b]
  | .number n => [.number n]
  | .string s => [.string s]
  | .object fields => [.object fields]

def leavesOfItems : List Value → List Value
  | [] => []
  | v :: rest => leaves v ++ leavesOfItems rest

end

theorem leaves_of_not_array {v : Value} (h : v.isArray = false) :
    v.leaves = [v] := by
  cases v with
  | array items => cases h
  | null => rw [leaves]
  | bool b => rw [leaves]
  | number n => rw [leaves]
  | string s => rw [leaves]
  | object fields => rw [leaves]

/-- The identifier of a document is an array with the string among its
leaves. -/
def Spreads (s : String) (doc : Value) : Prop :=
  ∃ items, doc.field? idKey = some (.array items) ∧
    .string s ∈ leavesOfItems items

end Value

namespace Filter

/-! ## Tests asked of leaves -/

mutual

theorem spread_eq (p : Option Value → Bool) : (v : Value) →
    spread (fun value => .ok (p value)) v =
      .ok (v.leaves.any fun leaf => p (some leaf))
  | .array items => by
      rw [spread, Value.leaves]
      exact spreadItems_eq p items
  | .null => by
      rw [spread, Value.leaves, List.any_cons, List.any_nil, Bool.or_false]
      simp
  | .bool b => by
      rw [spread, Value.leaves, List.any_cons, List.any_nil, Bool.or_false]
      simp
  | .number n => by
      rw [spread, Value.leaves, List.any_cons, List.any_nil, Bool.or_false]
      simp
  | .string s => by
      rw [spread, Value.leaves, List.any_cons, List.any_nil, Bool.or_false]
      simp
  | .object fields => by
      rw [spread, Value.leaves, List.any_cons, List.any_nil, Bool.or_false]
      simp

theorem spreadItems_eq (p : Option Value → Bool) : (items : List Value) →
    spreadItems (fun value => .ok (p value)) items =
      .ok ((Value.leavesOfItems items).any fun leaf => p (some leaf))
  | [] => by
      rw [spreadItems, Value.leavesOfItems]
      rfl
  | v :: rest => by
      rw [spreadItems, spread_eq p v, Value.leavesOfItems, List.any_append]
      cases v.leaves.any fun leaf => p (some leaf) with
      | true => rfl
      | false => exact spreadItems_eq p rest

end

/-! ## The filter of an identifier -/

/-- The filter that asks for a string as the identifier. -/
def ofId (s : String) : Value := .object [(idKey, .string s)]

theorem parse_idKey : Path.parse idKey = .ok ⟨[.key idKey], by simp⟩ := by
  decide +kernel

theorem childAt_idKey (doc : Value) :
    childAt idKey (some doc) = .ok (doc.field? idKey) := by
  have hget : ∀ found : Option Value, (found.bind fun v => some v) = found := by
    intro found
    cases found with
    | none => rfl
    | some v => rfl
  rw [childAt, parse_idKey]
  cases doc with
  | object fields => exact congrArg Except.ok (hget _)
  | null => rfl
  | bool b => rfl
  | number n => rfl
  | string s => rfl
  | array items => rfl

theorem isMatch_eq (s : String) (doc : Value) :
    isMatch (ofId s) doc = Comparison.eq.test (.string s)
      (doc.field? idKey) := by
  have hdate : Value.isDate (.object [(idKey, .string s)]) = false := by
    rw [Value.isDate, Value.asDate?, if_neg (by decide)]
    rfl
  have hoperator : Fields.isOperator idKey = false := by decide +kernel
  rw [isMatch, ofId, holds, hdate, if_neg Bool.false_ne_true, holdsFields,
    both, condition, hoperator, if_neg Bool.false_ne_true, childAt_idKey]
  show (Comparison.eq.test (.string s) (doc.field? idKey) >>= fun b => _) = _
  cases Comparison.eq.test (.string s) (doc.field? idKey) with
  | error e => rfl
  | ok b =>
      cases b with
      | true => rfl
      | false => rfl

/-- A document fulfils the filter if its identifier is the string or an array
with the string among its leaves. -/
theorem isMatch_ofId (s : String) (doc : Value) :
    ∃ b, isMatch (ofId s) doc = .ok b ∧
      (b = true ↔ doc.field? idKey = some (.string s) ∨ doc.Spreads s) := by
  rw [isMatch_eq]
  cases hid : doc.field? idKey with
  | none =>
      refine ⟨false, rfl, ?_⟩
      simp [Value.Spreads, hid]
  | some id =>
      have hspread :=
        spread_eq (fun value => value.any fun v => v.alike (.string s)) id
      refine ⟨_, hspread, ?_⟩
      have hleaf :
          (id.leaves.any fun leaf => (some leaf).any (·.alike (.string s))) =
            true ↔
          .string s ∈ id.leaves := by
        simp [Value.alike_string_iff]
      rw [hleaf, Value.Spreads, hid]
      cases harray : id.isArray with
      | true =>
          cases id with
          | array items => simp [Value.leaves]
          | null => cases harray
          | bool b => cases harray
          | number n => cases harray
          | string s => cases harray
          | object fields => cases harray
      | false =>
          rw [Value.leaves_of_not_array harray, List.mem_singleton,
            Option.some.injEq]
          refine ⟨fun h => .inl h.symm, ?_⟩
          rintro (h | ⟨items, h, -⟩)
          · exact h.symm
          · cases h
            cases harray

end Filter

end DocumentStore
