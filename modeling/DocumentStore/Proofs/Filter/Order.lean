import DocumentStore.Proofs.Filter.Scalar
import DocumentStore.Proofs.Value.Order

/-!
# Tests of order

What is no array is asked itself, so the four tests of order come down to how
the value and the operand compare, and to nothing if they do not
(`holds_inOrder`). `$eq` asks whether the two are alike, and where they compare
that is whether they compare as equal. So exactly one of `$lt`, `$eq` and `$gt`
is fulfilled by a value that can be compared with the operand, the one that
sorting would find, and `$gte` and `$lte` are what their names say; of a value
that cannot be compared none of the four is.
-/

namespace DocumentStore.Filter

open DocumentStore.Value (sortCompare compare?)

variable {v w : Value} {o : Ordering}

/-- The test of order with a name, of a value that is no array. -/
theorem holds_inOrder {key : String} {c : Comparison} {accept : Ordering → Bool}
    (hkey : Fields.isOperator key = true)
    (hop : Operator.ofName? key = some (.comparison c))
    (hdate : key ≠ Value.dateKey)
    (htest : c.test w = overElements fun value => .ok (inOrder accept w value))
    (hv : v.isArray = false) :
    holds (.object [(key, w)]) (some v) = .ok ((compare? v w).any accept) := by
  rw [holds_operator (.comparison c) hkey hop hdate]
  show c.test w (some v) = _
  rw [htest, overElements, spread_eq, Value.leaves_of_not_array hv,
    List.any_cons, List.any_nil, Bool.or_false, inOrder, Option.bind_some]

theorem holds_lt (hv : v.isArray = false) :
    holds (.object [("$lt", w)]) (some v) =
      .ok ((compare? v w).any (· == .lt)) :=
  holds_inOrder (by decide +kernel) rfl (by decide +kernel) rfl hv

theorem holds_lte (hv : v.isArray = false) :
    holds (.object [("$lte", w)]) (some v) =
      .ok ((compare? v w).any (· != .gt)) :=
  holds_inOrder (by decide +kernel) rfl (by decide +kernel) rfl hv

theorem holds_gt (hv : v.isArray = false) :
    holds (.object [("$gt", w)]) (some v) =
      .ok ((compare? v w).any (· == .gt)) :=
  holds_inOrder (by decide +kernel) rfl (by decide +kernel) rfl hv

theorem holds_gte (hv : v.isArray = false) :
    holds (.object [("$gte", w)]) (some v) =
      .ok ((compare? v w).any (· != .lt)) :=
  holds_inOrder (by decide +kernel) rfl (by decide +kernel) rfl hv

/-- `$eq` of values that compare. -/
theorem holds_eq_of_compare? (hv : v.isArray = false)
    (h : compare? v w = some o) :
    holds (.object [("$eq", w)]) (some v) = .ok (o == .eq) := by
  have halike : (o == .eq) = v.alike w := by
    rw [Bool.eq_iff_iff, beq_iff_eq]
    exact Value.compare?_eq_iff_alike h
  rw [holds_eq, Value.isWithin_of_not_array hv, halike]

/-- A value that compares with the operand as `o`: of `$lt`, `$eq` and `$gt` the
one that `o` names is fulfilled, and the other two tests are made of these. -/
theorem tests_of_compare? (hv : v.isArray = false) (h : compare? v w = some o) :
    ∃ lt eq gt, holds (.object [("$lt", w)]) (some v) = .ok lt ∧
      holds (.object [("$eq", w)]) (some v) = .ok eq ∧
      holds (.object [("$gt", w)]) (some v) = .ok gt ∧
      [lt, eq, gt].count true = 1 ∧
      holds (.object [("$gte", w)]) (some v) = .ok (gt || eq) ∧
      holds (.object [("$lte", w)]) (some v) = .ok (lt || eq) := by
  refine ⟨o == .lt, o == .eq, o == .gt, ?_, holds_eq_of_compare? hv h, ?_,
    ?_, ?_, ?_⟩
  · rw [holds_lt hv, h, Option.any_some]
  · rw [holds_gt hv, h, Option.any_some]
  · cases o <;> rfl
  · rw [holds_gte hv, h, Option.any_some]
    cases o <;> rfl
  · rw [holds_lte hv, h, Option.any_some]
    cases o <;> rfl

/-- The order of sorts is a total preorder. It extends the comparison of values,
which finds two of them equal exactly if they are alike. Of a value that is no
array and can be compared with the operand exactly one of `$lt`, `$eq` and `$gt`
is fulfilled, `$gte` is `$gt` or `$eq` and `$lte` is `$lt` or `$eq`; if it
cannot be compared none of the tests of order is. -/
theorem sorts_and_tests_agree (a b c : Option Value) (v w : Value) :
    sortCompare a a = .eq ∧ sortCompare b a = (sortCompare a b).swap ∧
      ((sortCompare a b).isLE = true → (sortCompare b c).isLE = true →
        (sortCompare a c).isLE = true) ∧
      (∀ o, compare? v w = some o →
        sortCompare (some v) (some w) = o ∧ (o = .eq ↔ v.alike w = true)) ∧
      (v.isArray = false →
        (compare? v w ≠ none →
          ∃ lt eq gt, holds (.object [("$lt", w)]) (some v) = .ok lt ∧
            holds (.object [("$eq", w)]) (some v) = .ok eq ∧
            holds (.object [("$gt", w)]) (some v) = .ok gt ∧
            [lt, eq, gt].count true = 1 ∧
            holds (.object [("$gte", w)]) (some v) = .ok (gt || eq) ∧
            holds (.object [("$lte", w)]) (some v) = .ok (lt || eq)) ∧
        (compare? v w = none →
          ∀ name ∈ ["$lt", "$lte", "$gt", "$gte"],
            holds (.object [(name, w)]) (some v) = .ok false)) := by
  refine ⟨Std.ReflCmp.compare_self, Std.OrientedCmp.eq_swap,
    Std.TransCmp.isLE_trans, ?_, ?_⟩
  · intro o h
    exact ⟨Value.sortCompare_of_compare? h, Value.compare?_eq_iff_alike h⟩
  · intro hv
    refine ⟨fun h => ?_, fun h => ?_⟩
    · obtain ⟨o, ho⟩ := Option.ne_none_iff_exists'.mp h
      exact tests_of_compare? hv ho
    · simp [holds_lt hv, holds_lte hv, holds_gt hv, holds_gte hv, h]

/-- The leap second at the end of 2016, as a text at another offset. -/
def leapSecond : Value :=
  .object [("$date", .string "2017-01-01T00:59:60+01:00")]

/-- The second after it, in milliseconds. -/
def newYear : Value := .object [("$date", .number (.int 1483228800000))]

/-- What is missing, a leap second and the second after it stand in this order;
the two dates can be compared, and the leap second cannot be compared with a
text. -/
theorem sorts_and_tests_agree_leapSecond :
    (sortCompare none (some newYear)).isLE = true ∧
      sortCompare (some leapSecond) (some newYear) = .lt ∧
      (∃ lt eq gt, holds (.object [("$lt", newYear)])
          (some leapSecond) = .ok lt ∧
        holds (.object [("$eq", newYear)]) (some leapSecond) = .ok eq ∧
        holds (.object [("$gt", newYear)]) (some leapSecond) = .ok gt ∧
        [lt, eq, gt].count true = 1 ∧
        holds (.object [("$gte", newYear)]) (some leapSecond) = .ok (gt || eq) ∧
        holds (.object [("$lte", newYear)]) (some leapSecond) =
          .ok (lt || eq)) ∧
      holds (.object [("$gte", .string "2017")]) (some leapSecond) =
        .ok false := by
  have harray : leapSecond.isArray = false := rfl
  have hcompare : compare? leapSecond newYear = some .lt := by decide +kernel
  have htext : compare? leapSecond (.string "2017") = none := rfl
  obtain ⟨-, -, htrans, hsort, htests⟩ :=
    sorts_and_tests_agree none (some leapSecond)
      (some newYear) leapSecond newYear
  obtain ⟨-, -, -, -, hmixed⟩ :=
    sorts_and_tests_agree none none none leapSecond (.string "2017")
  have hbefore := (hsort .lt hcompare).1
  refine ⟨htrans rfl (by rw [hbefore]; rfl), hbefore, ?_,
    (hmixed harray).2 htext "$gte" (by simp)⟩
  exact (htests harray).1 (by rw [hcompare]; exact nofun)

end DocumentStore.Filter
