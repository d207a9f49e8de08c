import DocumentStore.Proofs.Filter.Identifier
import DocumentStore.Proofs.Filter.Single

/-!
# Tests for equality with a scalar

A scalar here is what is no array and no plain object: null, a boolean, a
number, a string or a date. There are two ways to test that a value is alike to
it, and they differ in what they make of an array.

`$eq`, a path with the scalar as its operand, and `$elemMatch` ask the elements
of an array, and of the arrays among them, at any depth: `isWithin`. The scalar
as a clause by itself, which is also what a member of `$all` is, and `$ne`,
which is its negation, ask the elements of the array only: `isAmongOwn`. So all
of them mean the same unless the scalar is in an array within the array and not
among its own elements.
-/

namespace DocumentStore

namespace Value

/-- A value that stands for itself as an operand. -/
def isScalar (v : Value) : Bool := !(v.isArray || v.isPlainObject)

mutual

/-- What is asked in place of an array is no array. -/
theorem isArray_of_mem_leaves :
    (v : Value) → ∀ leaf ∈ v.leaves, leaf.isArray = false
  | .array items => by
      rw [leaves]
      exact isArray_of_mem_leavesOfItems items
  | .null => by simp [leaves, isArray]
  | .bool b => by simp [leaves, isArray]
  | .number n => by simp [leaves, isArray]
  | .string s => by simp [leaves, isArray]
  | .object fields => by simp [leaves, isArray]

theorem isArray_of_mem_leavesOfItems :
    (items : List Value) → ∀ leaf ∈ leavesOfItems items, leaf.isArray = false
  | [] => by simp [leavesOfItems]
  | v :: rest => by
      intro leaf h
      rw [leavesOfItems, List.mem_append] at h
      rcases h with h | h
      · exact isArray_of_mem_leaves v leaf h
      · exact isArray_of_mem_leavesOfItems rest leaf h

end

variable {c v : Value} {items : List Value}

theorem isArray_of_isScalar (h : c.isScalar = true) : c.isArray = false := by
  rw [isScalar, Bool.not_eq_true', Bool.or_eq_false_iff] at h
  exact h.1

theorem isArray_of_alike (hc : c.isScalar = true) (h : v.alike c = true) :
    v.isArray = false := by
  have harray := isArray_of_isScalar hc
  cases v with
  | array items =>
      cases c with
      | array _ => cases harray
      | _ => cases h
  | _ => rfl

/-- An element that is alike to a scalar is asked itself. -/
theorem isAmong_leaves (hc : c.isScalar = true) (h : c.isAmong items = true) :
    c.isAmong (leavesOfItems items) = true := by
  rw [isAmong, List.any_eq_true] at h
  obtain ⟨v, hv, halike⟩ := h
  have hleaf : v ∈ leavesOfItems items := by
    have hleaves := leaves_of_not_array (isArray_of_alike hc halike)
    clear halike
    induction items with
    | nil => cases hv
    | cons w rest ih =>
        rw [leavesOfItems, List.mem_append]
        rcases List.mem_cons.mp hv with rfl | hv
        · exact .inl (hleaves ▸ List.mem_singleton_self v)
        · exact .inr (ih hv)
  exact List.any_eq_true.mpr ⟨v, hleaf, halike⟩

/-- Whether a value is alike to `c`, or is an array with such a value among its
leaves. -/
def isWithin (c : Value) (found : Option Value) : Bool :=
  found.any fun v => c.isAmong v.leaves

/-- Whether a value is alike to `c`, or is an array with such a value among its
elements. -/
def isAmongOwn (c : Value) : Option Value → Bool
  | none => false
  | some (.array items) => c.isAmong items
  | some v => v.alike c

/-- In an array within an array, and not among the elements of the outer one. -/
def BuriedIn (c : Value) (found : Option Value) : Prop :=
  ∃ items, found = some (.array items) ∧ c.isAmong items = false ∧
    c.isAmong (leavesOfItems items) = true

theorem isAmongOwn_of_not_array (h : v.isArray = false) :
    c.isAmongOwn (some v) = v.alike c := by
  cases v with
  | array items => cases h
  | _ => rfl

theorem isWithin_of_not_array (h : v.isArray = false) :
    c.isWithin (some v) = v.alike c := by
  rw [isWithin, Option.any_some, leaves_of_not_array h, isAmong, List.any_cons,
    List.any_nil, Bool.or_false]

theorem isWithin_of_buriedIn {found : Option Value} (h : c.BuriedIn found) :
    c.isWithin found = true ∧ c.isAmongOwn found = false := by
  obtain ⟨items, rfl, hown, hwithin⟩ := h
  refine ⟨?_, hown⟩
  rw [isWithin, Option.any_some, leaves, hwithin]

theorem isWithin_of_not_buriedIn {found : Option Value} (hc : c.isScalar = true)
    (h : ¬ c.BuriedIn found) : c.isWithin found = c.isAmongOwn found := by
  cases found with
  | none => rfl
  | some v =>
      cases harray : v.isArray with
      | false =>
          rw [isWithin_of_not_array harray, isAmongOwn_of_not_array harray]
      | true =>
          cases v with
          | array items =>
              rw [isWithin, Option.any_some, leaves, isAmongOwn]
              cases hown : c.isAmong items with
              | true => exact isAmong_leaves hc hown
              | false =>
                  exact Bool.eq_false_iff.mpr fun hwithin =>
                    h ⟨items, rfl, hown, hwithin⟩
          | _ => cases harray

end Value

namespace Filter

variable {c : Value} {found : Option Value}

/-! ## What each test answers -/

theorem holds_scalar (hc : c.isScalar = true) (found : Option Value) :
    holds c found = .ok (c.isAmongOwn found) := by
  have hliteral : holds c found = literal c found := by
    cases c with
    | array _ => cases hc
    | object fields =>
        have hdate : Value.isDate (.object fields) = true := by
          simpa [Value.isScalar, Value.isPlainObject, Value.isObject,
            Value.isArray] using hc
        rw [holds, if_pos hdate]
    | _ => rw [holds]
  rw [hliteral]
  cases found with
  | none => rfl
  | some v =>
      cases v with
      | array items =>
          have halike : (Value.array items).alike c = false :=
            Bool.eq_false_iff.mpr fun h =>
              Bool.noConfusion (Value.isArray_of_alike hc h)
          rw [literal, halike]
          rfl
      | _ => exact congrArg _ (Bool.or_false _)

theorem eq_test (c : Value) (found : Option Value) :
    Comparison.eq.test c found = .ok (c.isWithin found) := by
  cases found with
  | none => rfl
  | some v => exact spread_eq (fun value => value.any (·.alike c)) v

theorem ne_test (c : Value) (found : Option Value) :
    Comparison.ne.test c found = .ok (!c.isAmongOwn found) := by
  cases found with
  | none => rfl
  | some v => cases v <;> rfl

theorem elemMatch_test (hc : c.isScalar = true) (found : Option Value) :
    overElements (holds c) found = .ok (c.isWithin found) := by
  have hholds : holds c = fun value => .ok (c.isAmongOwn value) :=
    funext (holds_scalar hc)
  rw [hholds]
  cases found with
  | none => rfl
  | some v =>
      have hleaves : ∀ leaf ∈ v.leaves,
          c.isAmongOwn (some leaf) = leaf.alike c :=
        fun leaf hleaf =>
          Value.isAmongOwn_of_not_array
            (Value.isArray_of_mem_leaves v leaf hleaf)
      rw [overElements, spread_eq, Value.isWithin, Option.any_some,
        Value.isAmong]
      refine congrArg _ (Bool.eq_iff_iff.mpr ?_)
      rw [List.any_eq_true, List.any_eq_true]
      refine exists_congr fun leaf => and_congr_right fun hleaf => ?_
      rw [hleaves leaf hleaf]

/-! ## The clauses -/

theorem holds_eq (c : Value) (found : Option Value) :
    holds (.object [("$eq", c)]) found = .ok (c.isWithin found) := by
  rw [holds_operator (.comparison .eq) (by decide +kernel) rfl
    (by decide +kernel)]
  exact eq_test c found

theorem holds_ne (c : Value) (found : Option Value) :
    holds (.object [("$ne", c)]) found = .ok (!c.isAmongOwn found) := by
  rw [holds_operator (.comparison .ne) (by decide +kernel) rfl
    (by decide +kernel)]
  exact ne_test c found

theorem holds_elemMatch (hc : c.isScalar = true) (found : Option Value) :
    holds (.object [("$elemMatch", c)]) found = .ok (c.isWithin found) := by
  rw [holds_operator .elemMatch (by decide +kernel) rfl (by decide +kernel)]
  exact elemMatch_test hc found

theorem holds_all (c : Value) (found : Option Value) :
    holds (.object [("$all", .array [c])]) found = holds c found := by
  rw [holds_operator .all (by decide +kernel) rfl (by decide +kernel)]
  exact both_true (holds c)

/-- A scalar as the operand of a path. -/
theorem holds_at {key : String} {path : Path} (hc : c.isScalar = true)
    (hkey : Fields.isOperator key = false) (hpath : Path.parse key = .ok path)
    (doc : Value) :
    holds (.object [(key, c)]) (some doc) =
      .ok (c.isWithin (path.get doc)) := by
  have hplain : (c.isArray || c.isPlainObject) = false := by
    rwa [Value.isScalar, Bool.not_eq_true'] at hc
  rw [holds_path hkey, childAt, hpath]
  show asks c (path.get doc) = _
  rw [asks, hplain, if_neg Bool.false_ne_true, eq_test]

/-- The tests for equality with a scalar. `$eq`, an operand of a path and
`$elemMatch` mean the same, and so do the scalar itself, a member of `$all` and
the negation of `$ne`. The two mean the same unless the scalar is buried in an
array: there the first is fulfilled and the second is not. -/
theorem scalar_tests_agree {c : Value} (hc : c.isScalar = true)
    (found : Option Value) :
    holds (.object [("$elemMatch", c)]) found =
      holds (.object [("$eq", c)]) found ∧
      (∀ (key : String) (path : Path) (doc : Value),
          Fields.isOperator key = false →
        Path.parse key = .ok path → path.get doc = found →
        holds (.object [(key, c)]) (some doc) =
          holds (.object [("$eq", c)]) found) ∧
      holds (.object [("$all", .array [c])]) found = holds c found ∧
      holds (.object [("$ne", c)]) found = (! ·) <$> holds c found ∧
      (¬ c.BuriedIn found → holds (.object [("$eq", c)]) found = holds c found ∧
        holds (.object [("$ne", c)]) found =
          (! ·) <$> holds (.object [("$eq", c)]) found) ∧
      (c.BuriedIn found → holds (.object [("$eq", c)]) found = .ok true ∧
        holds c found = .ok false) := by
  refine ⟨(holds_elemMatch hc found).trans (holds_eq c found).symm, ?_,
    holds_all c found, ?_, ?_, ?_⟩
  · rintro key path doc hkey hpath rfl
    rw [holds_at hc hkey hpath, holds_eq]
  · rw [holds_ne, holds_scalar hc]
    rfl
  · intro hburied
    have hsame := Value.isWithin_of_not_buriedIn hc hburied
    rw [holds_eq, holds_scalar hc, holds_ne, hsame]
    exact ⟨rfl, rfl⟩
  · intro hburied
    obtain ⟨hwithin, hown⟩ := Value.isWithin_of_buriedIn hburied
    rw [holds_eq, holds_scalar hc, hwithin, hown]
    exact ⟨rfl, rfl⟩

/-- Of a string in an array within an array, `$eq` and `$ne` are both fulfilled,
and the string as a clause is not. -/
theorem scalar_tests_part :
    (Value.string "a").isScalar = true ∧
      holds (.object [("$eq", .string "a")])
        (some (.array [.array [.string "a"]])) ≠
        holds (.string "a") (some (.array [.array [.string "a"]])) ∧
      holds (.object [("$ne", .string "a")])
        (some (.array [.array [.string "a"]])) ≠
        (! ·) <$> holds (.object [("$eq", .string "a")])
          (some (.array [.array [.string "a"]])) := by
  decide +kernel

/-- The start of 1970, in milliseconds. -/
def epochMillis : Value := .object [("$date", .number (.int 0))]

/-- An array that has it, as a text, within an array. -/
def archive : Value :=
  .array
    [.null, .array [.object [("$date", .string "1970-01-01T01:00:00+01:00")]]]

theorem scalar_tests_agree_archive :
    epochMillis.isScalar = true ∧ epochMillis.BuriedIn (some archive) ∧
      holds (.object [("$elemMatch", epochMillis)]) (some archive) =
        holds (.object [("$eq", epochMillis)]) (some archive) ∧
      (∀ (key : String) (path : Path) (doc : Value),
          Fields.isOperator key = false →
        Path.parse key = .ok path → path.get doc = some archive →
        holds (.object [(key, epochMillis)]) (some doc) =
          holds (.object [("$eq", epochMillis)]) (some archive)) ∧
      holds (.object [("$all", .array [epochMillis])]) (some archive) =
        holds epochMillis (some archive) ∧
      holds (.object [("$ne", epochMillis)]) (some archive) =
        (! ·) <$> holds epochMillis (some archive) ∧
      (¬ epochMillis.BuriedIn (some archive) →
        holds (.object [("$eq", epochMillis)]) (some archive) =
          holds epochMillis (some archive) ∧
          holds (.object [("$ne", epochMillis)]) (some archive) =
            (! ·) <$> holds (.object [("$eq", epochMillis)]) (some archive)) ∧
      (epochMillis.BuriedIn (some archive) →
        holds (.object [("$eq", epochMillis)]) (some archive) = .ok true ∧
          holds epochMillis (some archive) = .ok false) := by
  have hscalar : epochMillis.isScalar = true := by decide +kernel
  have hburied : epochMillis.BuriedIn (some archive) :=
    ⟨_, rfl, by decide +kernel, by decide +kernel⟩
  exact ⟨hscalar, hburied, scalar_tests_agree hscalar (some archive)⟩

end Filter

end DocumentStore
