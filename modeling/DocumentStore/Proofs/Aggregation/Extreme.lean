import DocumentStore.Proofs.Aggregation.Group
import DocumentStore.Proofs.Value.Order
import Mathlib.Data.List.Induction

/-!
# The least and the greatest result

A scan keeps the best value so far and compares each new one with this alone.
That it ends with a value that no other one beats is due to the order of sorts
being transitive, on values of any mix of kinds: what beats the best so far
beats everything that did not beat it (`Beats.of_not_beats`), and so all that
the scan has seen. Many different values are equal by this order; as the best
one only gives way to a better one, the first of them stays.
-/

namespace DocumentStore.Aggregation

variable {expr : Value} {docs values : List Value} {wanted : Ordering}
  {v w x : Value}
  {best : Option Value}

/-! ## Values that beat others -/

/-- The first value stands to the second in the order that is wanted. -/
def Beats (wanted : Ordering) (v w : Value) : Prop :=
  Value.sortCompare (some v) (some w) = wanted

/-- The first of some values that none of them beats, if there are any. -/
inductive FirstUnbeaten (wanted : Ordering) : List Value → Option Value → Prop
  | none : FirstUnbeaten wanted [] none
  | some {before after : List Value} {x : Value}
      (unbeaten : ∀ y ∈ before ++ x :: after, ¬ Beats wanted y x)
      (first : ∀ y ∈ before, ∃ z ∈ before ++ x :: after, Beats wanted z y) :
      FirstUnbeaten wanted (before ++ x :: after) (some x)

theorem Beats.asymm (hwanted : wanted ≠ .eq) (h : Beats wanted v w) :
    ¬ Beats wanted w v := by
  rw [Beats] at h ⊢
  have hswap : Value.sortCompare (some w) (some v) = wanted.swap := by
    rw [← h]
    exact Std.OrientedCmp.eq_swap
  rw [hswap]
  cases wanted with
  | eq => exact absurd rfl hwanted
  | lt => exact Ordering.noConfusion
  | gt => exact Ordering.noConfusion

/-- What beats a value beats all that do not beat it. Here the order has to be
transitive. -/
theorem Beats.of_not_beats (hwanted : wanted ≠ .eq) (h : Beats wanted v w)
    (hx : ¬ Beats wanted x w) : Beats wanted v x := by
  rw [Beats] at h hx ⊢
  have hswap : Value.sortCompare (some w) (some x) =
      (Value.sortCompare (some x) (some w)).swap := Std.OrientedCmp.eq_swap
  cases wanted with
  | eq => exact absurd rfl hwanted
  | lt =>
      refine Std.TransCmp.lt_of_lt_of_isLE h ?_
      rw [hswap, Ordering.isLE_swap, Ordering.isGE_iff_ne_lt]
      exact hx
  | gt =>
      refine Std.TransCmp.gt_of_gt_of_isGE h ?_
      rw [hswap, Ordering.isGE_swap, Ordering.isLE_iff_ne_gt]
      exact hx

theorem better_of_isNull (hv : v.isNull = true) :
    better wanted best v = best := by
  unfold better
  exact if_pos hv

theorem better_of_not_isNull (hv : v.isNull = false) :
    better wanted best v = match best with
      | none => some v
      | some current =>
          if Value.sortCompare (some v) (some current) = wanted then some v
          else best := by
  unfold better
  exact if_neg (by rw [hv]; exact Bool.false_ne_true)

/-- One step of the scan: what beats the best so far beats all that came
before. -/
theorem FirstUnbeaten.better (hwanted : wanted ≠ .eq)
    (h : FirstUnbeaten wanted values best) (hv : v.isNull = false) :
    FirstUnbeaten wanted (values ++ [v])
      (Aggregation.better wanted best v) := by
  rw [better_of_not_isNull hv]
  have hirrefl : ∀ y, ¬ Beats wanted y y := fun y hy => hy.asymm hwanted hy
  cases h with
  | none =>
      refine @FirstUnbeaten.some wanted [] [] v ?_ (List.forall_mem_nil _)
      exact List.forall_mem_singleton.mpr (hirrefl v)
  | @some before after x hunbeaten hfirst =>
      dsimp only
      split
      · next hbeats =>
          have hall : ∀ y ∈ before ++ x :: after, Beats wanted v y :=
            fun y hy =>
            Beats.of_not_beats hwanted hbeats (hunbeaten y hy)
          refine .some ?_ fun y hy => ⟨v, by simp, hall y hy⟩
          intro y hy
          rcases List.mem_append.mp hy with hy | hy
          · exact (hall y hy).asymm hwanted
          · rw [List.mem_singleton.mp hy]
            exact hirrefl v
      · next hbeats =>
          rw [List.append_assoc, List.cons_append]
          refine .some ?_ fun y hy => ?_
          · rw [← List.cons_append, ← List.append_assoc]
            intro y hy
            rcases List.mem_append.mp hy with hy | hy
            · exact hunbeaten y hy
            · rw [List.mem_singleton.mp hy]
              exact hbeats
          · obtain ⟨z, hz, hbeaten⟩ := hfirst y hy
            rw [← List.cons_append, ← List.append_assoc]
            exact ⟨z, List.mem_append_left _ hz, hbeaten⟩

theorem firstUnbeaten_foldl (hwanted : wanted ≠ .eq) (values : List Value) :
    FirstUnbeaten wanted (values.filter fun v => !v.isNull)
      (values.foldl (Aggregation.better wanted) none) := by
  induction values using List.reverseRecOn with
  | nil => exact .none
  | append_singleton values v ih =>
      rw [List.filter_append, List.foldl_append, List.foldl_cons,
        List.foldl_nil]
      cases hv : v.isNull with
      | true =>
          have hnone : [v].filter (fun v => !v.isNull) = [] := by simp [hv]
          rw [hnone, List.append_nil, better_of_isNull hv]
          exact ih
      | false =>
          have hself : [v].filter (fun v => !v.isNull) = [v] := by simp [hv]
          rw [hself]
          exact ih.better hwanted hv

/-- The results that are not null, in the order of the documents. -/
def candidates (expr : Value) (docs : List Value) : List Value :=
  (resultsOf expr docs).filter fun v => !v.isNull

/-- The least and the greatest result by the order of sorts: of the results that
are not null the first to which none of them is less, and the first to which
none is greater, and null if all are null or missing. -/
theorem extremes_picked
    (h : ∀ doc ∈ docs, ∃ result, Expression.eval doc expr = .ok result) :
    ∃ least greatest,
      Accumulator.compute ⟨.min, expr⟩ docs = .ok (least.getD .null) ∧
        FirstUnbeaten .lt (candidates expr docs) least ∧
      Accumulator.compute ⟨.max, expr⟩ docs = .ok (greatest.getD .null) ∧
        FirstUnbeaten .gt (candidates expr docs) greatest := by
  have hresults := results_eq_resultsOf h
  refine ⟨_, _, ?_, firstUnbeaten_foldl Ordering.noConfusion _, ?_,
    firstUnbeaten_foldl Ordering.noConfusion _⟩
  · show extreme .lt <$> results expr docs = _
    rw [hresults]
    rfl
  · show extreme .gt <$> results expr docs = _
    rw [hresults]
    rfl

/-- Documents with null, with nothing, and with arrays and objects, which do not
compare among themselves. -/
def mixed : List Value :=
  [.object [("v", .null)], .object [], .object [("v", .array [.ofInt 1])],
    .object [("v", .object [("a", .ofInt 1)])],
    .object [("v", .object [("b", .ofInt 2)])],
    .object [("v", .array [.ofInt 2])]]

/-- Of the objects and of the arrays the first one is taken. -/
theorem extremes_picked_mixed :
    (∀ doc ∈ mixed, ∃ result, Expression.eval doc (.string "$v") = .ok result) ∧
      Accumulator.compute ⟨.min, .string "$v"⟩ mixed =
        .ok (.object [("a", .ofInt 1)]) ∧
      FirstUnbeaten .lt (candidates (.string "$v") mixed)
        (some (.object [("a", .ofInt 1)])) ∧
      Accumulator.compute ⟨.max, .string "$v"⟩ mixed = .ok (.array [.ofInt 1]) ∧
      FirstUnbeaten .gt (candidates (.string "$v") mixed)
        (some (.array [.ofInt 1])) := by
  have heval : ∀ doc ∈ mixed, ∃ result, Expression.eval doc (.string "$v") =
      .ok result := by
    intro doc hdoc
    refine ⟨doc.field? "v", ?_⟩
    simp only [Expression.eval]
    revert doc
    decide +kernel
  have hmin : Accumulator.compute ⟨.min, .string "$v"⟩ mixed =
      .ok (.object [("a", .ofInt 1)]) := by
    simp only [Accumulator.compute, results, mixed, Expression.eval]
    decide +kernel
  have hmax : Accumulator.compute ⟨.max, .string "$v"⟩ mixed =
      .ok (.array [.ofInt 1]) := by
    simp only [Accumulator.compute, results, mixed, Expression.eval]
    decide +kernel
  obtain ⟨least, greatest, hleast, hfirst, hgreatest, hlast⟩ :=
    extremes_picked heval
  rw [hmin] at hleast
  rw [hmax] at hgreatest
  cases least with
  | none => cases hleast
  | some low =>
      cases greatest with
      | none => cases hgreatest
      | some high =>
          cases hleast
          cases hgreatest
          exact ⟨heval, hmin, hfirst, hmax, hlast⟩

end DocumentStore.Aggregation
