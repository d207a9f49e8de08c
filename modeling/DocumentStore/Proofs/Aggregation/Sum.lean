import DocumentStore.Proofs.Aggregation.Group
import DocumentStore.Proofs.Number.Whole
import Mathlib.Data.List.Induction
import Mathlib.Data.List.Infix

/-!
# Sums that are exact

A sum keeps an integer and, for what does not fit, a double. An integer that
would take the sum out of the signed range goes to the double, and what stays
behind is then no partial sum any more. So the sum is exact, and an integer, as
long as no partial sum leaves the range (`foldl_add`), and it depends on the
order of the documents whether one does. It does in no order if the positive
integers fit by themselves and the negative ones do (`staysSigned_of_bounds`).
-/

namespace DocumentStore.Aggregation

variable {expr : Value} {docs values : List Value} {terms others : List Int}
  {i : Int} {v : Value}

/-! ## Sums of integers -/

def total (terms : List Int) : Int := terms.foldr (· + ·) 0

theorem total_append (terms others : List Int) :
    total (terms ++ others) = total terms + total others := by
  induction terms with
  | nil => exact (Int.zero_add _).symm
  | cons i rest ih =>
      show i + total (rest ++ others) = i + total rest + total others
      rw [ih, Int.add_assoc]

theorem total_concat (terms : List Int) (i : Int) :
    total (terms ++ [i]) = total terms + i := by
  rw [total_append]
  exact congrArg _ (Int.add_zero i)

theorem total_perm (h : terms.Perm others) : total terms = total others := by
  induction h with
  | nil => rfl
  | cons i _ ih => exact congrArg (i + ·) ih
  | swap i j rest => exact Int.add_left_comm j i (total rest)
  | trans _ _ ih ih' => exact ih.trans ih'

/-- The sum of the positive ones. -/
def gains (terms : List Int) : Int := total (terms.filter fun i => 0 < i)

/-- The sum of the negative ones. -/
def losses (terms : List Int) : Int := total (terms.filter fun i => i < 0)

theorem gains_append (terms others : List Int) :
    gains (terms ++ others) = gains terms + gains others := by
  rw [gains, List.filter_append, total_append, gains, gains]

theorem losses_append (terms others : List Int) :
    losses (terms ++ others) = losses terms + losses others := by
  rw [losses, List.filter_append, total_append, losses, losses]

theorem gains_cons (i : Int) (terms : List Int) :
    gains (i :: terms) = if 0 < i then i + gains terms else gains terms := by
  rw [gains, List.filter_cons]
  simp only [decide_eq_true_eq]
  split <;> rfl

theorem losses_cons (i : Int) (terms : List Int) :
    losses (i :: terms) = if i < 0 then i + losses terms else losses terms := by
  rw [losses, List.filter_cons]
  simp only [decide_eq_true_eq]
  split <;> rfl

/-- A sum lies between its losses and its gains. -/
theorem total_bounds (terms : List Int) : losses terms ≤ 0 ∧ 0 ≤ gains terms ∧
    losses terms ≤ total terms ∧ total terms ≤ gains terms := by
  induction terms with
  | nil => decide
  | cons i rest ih =>
      have hcons : total (i :: rest) = i + total rest := rfl
      rw [gains_cons, losses_cons, hcons]
      split <;> split <;> omega

/-- Every partial sum is in the signed range. -/
def StaysSigned (terms : List Int) : Prop :=
  ∀ taken, taken <+: terms → FitsSigned (total taken)

instance : Decidable (StaysSigned terms) :=
  decidable_of_iff (∀ taken ∈ terms.inits, FitsSigned (total taken))
    (forall_congr' fun _ => imp_congr_left (List.mem_inits _ _))

theorem staysSigned_concat : StaysSigned (terms ++ [i]) ↔
    StaysSigned terms ∧ FitsSigned (total terms + i) := by
  simp only [StaysSigned, List.prefix_concat_iff]
  constructor
  · intro h
    exact ⟨fun taken htaken => h taken (.inr htaken),
      total_concat terms i ▸ h _ (.inl rfl)⟩
  · rintro ⟨hbefore, hlast⟩ taken (rfl | htaken)
    · rwa [total_concat]
    · exact hbefore taken htaken

/-- If the gains and the losses fit by themselves, then so does every partial
sum. -/
theorem staysSigned_of_bounds (hgains : gains terms < 0x8000000000000000)
    (hlosses : -0x8000000000000000 ≤ losses terms) : StaysSigned terms := by
  rintro taken ⟨rest, rfl⟩
  rw [gains_append] at hgains
  rw [losses_append] at hlosses
  have htaken := total_bounds taken
  have hrest := total_bounds rest
  constructor <;> omega

/-- What is no number, or an integer in the signed range. -/
def Addable (v : Value) : Prop := v.asNumber? = none ∨ ∃ i, v.asInt? = some i

theorem add_of_not_number (h : v.asNumber? = none) (sum : Sum) :
    sum.add v = sum := by
  cases v with
  | number n => cases h
  | _ => rfl

theorem asInt?_of_not_number (h : v.asNumber? = none) : v.asInt? = none := by
  rw [Value.asInt?, h]
  rfl

theorem exists_number_of_asInt? (h : v.asInt? = some i) :
    ∃ n : Number, v = .number n ∧ n.asInt? = some i := by
  cases v with
  | number n => exact ⟨n, rfl, h⟩
  | _ => cases h

theorem add_of_asInt? {n : Number} (h : n.asInt? = some i) (sum : Sum) :
    sum.add (.number n) = if FitsSigned (sum.whole + i) then { sum with
        whole := sum.whole + i }
      else sum.addDouble n := by
  rw [Sum.add, h]

theorem hasRest_add (sum : Sum) (v : Value) (h : sum.hasRest = true) :
    (sum.add v).hasRest = true := by
  cases v with
  | number n =>
      cases hint : n.asInt? with
      | none => rw [Sum.add, hint]; rfl
      | some i =>
          rw [add_of_asInt? hint]
          split
          · exact h
          · rfl
  | _ => exact h

/-- The sum so far is the exact one as long as all partial sums have been in the
range; from the first one that was not, a part of it is a double. -/
theorem foldl_add (h : ∀ v ∈ values, Addable v) :
    ((values.foldl Sum.add Sum.zero).hasRest = false ↔
        StaysSigned (values.filterMap Value.asInt?)) ∧
      (StaysSigned (values.filterMap Value.asInt?) →
        (values.foldl Sum.add Sum.zero).whole =
          total (values.filterMap Value.asInt?)) := by
  induction values using List.reverseRecOn with
  | nil =>
      refine ⟨iff_of_true rfl ?_, fun _ => rfl⟩
      intro taken htaken
      rw [List.prefix_nil.mp htaken]
      decide
  | append_singleton values v ih =>
      rw [List.forall_mem_append, List.forall_mem_singleton] at h
      obtain ⟨hbefore, hv⟩ := h
      obtain ⟨hrest, hwhole⟩ := ih hbefore
      rw [List.foldl_append, List.foldl_cons, List.foldl_nil,
        List.filterMap_append]
      rcases hv with hnone | ⟨i, hi⟩
      · have hterm : [v].filterMap Value.asInt? = [] := by
          simp [asInt?_of_not_number hnone]
        rw [add_of_not_number hnone, hterm, List.append_nil]
        exact ⟨hrest, hwhole⟩
      · have hterm : [v].filterMap Value.asInt? = [i] := by simp [hi]
        rw [hterm, staysSigned_concat, total_concat]
        obtain ⟨n, rfl, hn⟩ := exists_number_of_asInt? hi
        by_cases hstays : StaysSigned (values.filterMap Value.asInt?)
        · rw [add_of_asInt? hn, hwhole hstays]
          split
          · next hfits =>
              exact ⟨iff_of_true (hrest.mpr hstays) ⟨hstays, hfits⟩,
                fun _ => rfl⟩
          · next hover =>
              exact ⟨iff_of_false Bool.noConfusion fun h => hover h.2,
                fun h => absurd h.2 hover⟩
        · have hover : (values.foldl Sum.add Sum.zero).hasRest = true :=
            eq_true_of_ne_false fun h => hstays (hrest.mp h)
          refine ⟨iff_of_false ?_ fun h => hstays h.1,
            fun h => absurd h.1 hstays⟩
          rw [hasRest_add _ _ hover]
          exact Bool.noConfusion

theorem sum_of_staysSigned (h : ∀ v ∈ values, Addable v)
    (hstays : StaysSigned (values.filterMap Value.asInt?)) :
    sum values = .ofInt (total (values.filterMap Value.asInt?)) := by
  obtain ⟨hrest, hwhole⟩ := foldl_add h
  rw [sum, Sum.value, hrest.mpr hstays, if_neg Bool.false_ne_true,
    hwhole hstays]

/-- A sum that is partly a double is an integer at most below the limit of
results that are. -/
theorem staysSigned_of_sum (h : ∀ v ∈ values, Addable v) {n : Int} (hn : Fits n)
    (hsum : sum values = .ofInt n) :
    StaysSigned (values.filterMap Value.asInt?) ∨
      n.natAbs < Number.wholeLimit := by
  by_cases hstays : StaysSigned (values.filterMap Value.asInt?)
  · exact .inl hstays
  · have hover : (values.foldl Sum.add Sum.zero).hasRest = true :=
      eq_true_of_ne_false fun hno => hstays ((foldl_add h).1.mp hno)
    rw [sum, Sum.value, hover, if_pos rfl, Value.ofInt_of_fits hn,
      Value.ofDouble?_eq_int_iff] at hsum
    exact .inr hsum.1

/-- The result for a document can be added, if there is one. -/
def GivesInteger (expr doc : Value) : Prop :=
  ∃ result, Expression.eval doc expr = .ok result ∧
    ∀ v, result = some v → Addable v

/-- The integers among the results, in the order of the documents. -/
def addends (expr : Value) (docs : List Value) : List Int :=
  (resultsOf expr docs).filterMap Value.asInt?

theorem addable_of_mem (h : ∀ doc ∈ docs, GivesInteger expr doc) :
    ∀ v ∈ resultsOf expr docs, Addable v := by
  intro v hv
  obtain ⟨doc, hdoc, hresult⟩ := List.mem_filterMap.mp hv
  obtain ⟨result, heval, hadd⟩ := h doc hdoc
  rw [resultOf, heval] at hresult
  exact hadd v hresult

theorem compute_sum (hexpr : expr.asNumber? = none)
    (h : ∀ doc ∈ docs, GivesInteger expr doc) :
    Accumulator.compute ⟨.sum, expr⟩ docs =
      .ok (sum (resultsOf expr docs)) := by
  have hresults : results expr docs = .ok (resultsOf expr docs) :=
    results_eq_resultsOf fun doc hdoc => (h doc hdoc).imp fun _ => And.left
  cases expr with
  | number n => cases hexpr
  | _ =>
      show sum <$> results _ docs = _
      rw [hresults]
      rfl

/-- A sum of integers is exact, and an integer, if no partial sum leaves the
signed range: so are the sums in all orders of the documents of which this
holds, and in every order if it holds of the positive and of the negative
integers by themselves. If a partial sum leaves the range, the sum is taken as a
double, and an exact integer at most where results that are whole are written as
integers. -/
theorem sum_exact (hexpr : expr.asNumber? = none)
    (hdocs : ∀ doc ∈ docs, GivesInteger expr doc) :
    (∀ order : List Value, order.Perm docs → StaysSigned (addends expr order) →
      Accumulator.compute ⟨.sum, expr⟩ order =
        .ok (.ofInt (total (addends expr docs)))) ∧
    (FitsSigned (gains (addends expr docs)) →
        FitsSigned (losses (addends expr docs)) →
      ∀ order : List Value, order.Perm docs →
        StaysSigned (addends expr order)) ∧
    (FitsSigned (total (addends expr docs)) →
      Accumulator.compute ⟨.sum, expr⟩ docs =
        .ok (.ofInt (total (addends expr docs))) →
      StaysSigned (addends expr docs) ∨
        (total (addends expr docs)).natAbs < Number.wholeLimit) := by
  have hperm : ∀ order : List Value, order.Perm docs →
      (addends expr order).Perm (addends expr docs) := fun order horder =>
    (horder.filterMap _).filterMap _
  refine ⟨?_, ?_, ?_⟩
  · intro order horder hstays
    have hgives : ∀ doc ∈ order, GivesInteger expr doc := fun doc hdoc =>
      hdocs doc (horder.mem_iff.mp hdoc)
    rw [compute_sum hexpr hgives, ← total_perm (hperm order horder)]
    exact congrArg Except.ok (sum_of_staysSigned (addable_of_mem hgives) hstays)
  · intro hgains hlosses order horder
    have hsame := hperm order horder
    refine staysSigned_of_bounds ?_ ?_
    · rw [gains, total_perm (hsame.filter _)]
      exact hgains.2
    · rw [losses, total_perm (hsame.filter _)]
      exact hlosses.1
  · intro hfits hexact
    rw [compute_sum hexpr hdocs, Except.ok.injEq] at hexact
    have hwide : Fits (total (addends expr docs)) := by
      obtain ⟨hleast, hgreatest⟩ := hfits
      constructor <;> omega
    exact staysSigned_of_sum (addable_of_mem hdocs) hwide hexact

/-- The greatest integer, then one more and one less, and documents without an
integer. -/
def brimming : List Value :=
  [.object [("n", .ofInt 0x7fffffffffffffff)], .object [("n", .ofInt 1)],
    .object [("n", .ofInt (-1))], .object [], .object [("n", .string "x")]]

/-- The same documents, the greatest integer last. -/
def brimmingLast : List Value :=
  [.object [("n", .ofInt 1)], .object [("n", .ofInt (-1))], .object [],
    .object [("n", .string "x")], .object [("n", .ofInt 0x7fffffffffffffff)]]

theorem givesInteger_brimming :
    ∀ doc ∈ brimming, GivesInteger (.string "$n") doc := by
  have heval : ∀ doc ∈ brimming,
      Expression.eval doc (.string "$n") = .ok (doc.field? "n") := by
    simp only [Expression.eval]
    decide +kernel
  have hadd : ∀ doc ∈ brimming, ∀ v ∈ doc.field? "n",
      v.asNumber? = none ∨ (v.asInt?).isSome = true := by
    decide +kernel
  intro doc hdoc
  refine ⟨_, heval doc hdoc, fun v hv => (hadd doc hdoc v hv).imp_right ?_⟩
  exact Option.isSome_iff_exists.mp

theorem addends_brimming :
    addends (.string "$n") brimming = [0x7fffffffffffffff, 1, -1] := by
  simp only [addends, resultsOf, brimming, List.filterMap_cons, resultOf,
    Expression.eval]
  decide +kernel

theorem addends_brimmingLast :
    addends (.string "$n") brimmingLast = [1, -1, 0x7fffffffffffffff] := by
  simp only [addends, resultsOf, brimmingLast, List.filterMap_cons, resultOf,
    Expression.eval]
  decide +kernel

/-- In the one order the sum is not exact, although it fits. -/
theorem sum_exact_part :
    (∀ doc ∈ brimming, GivesInteger (.string "$n") doc) ∧
      FitsSigned (total (addends (.string "$n") brimming)) ∧
      Accumulator.compute ⟨.sum, .string "$n"⟩ brimming ≠
        .ok (.ofInt (total (addends (.string "$n") brimming))) := by
  refine ⟨givesInteger_brimming, ?_, ?_⟩
  · rw [addends_brimming]
    decide
  · rw [addends_brimming]
    simp only [Accumulator.compute, results, brimming, Expression.eval]
    decide +kernel

/-- In the other order it is. -/
theorem sum_exact_brimmingLast :
    brimmingLast.Perm brimming ∧
      StaysSigned (addends (.string "$n") brimmingLast) ∧
      Accumulator.compute ⟨.sum, .string "$n"⟩ brimmingLast =
        .ok (.ofInt 0x7fffffffffffffff) := by
  have hperm : brimmingLast.Perm brimming := by decide +kernel
  have hstays : StaysSigned (addends (.string "$n") brimmingLast) := by
    rw [addends_brimmingLast]
    decide
  have hexpr : (Value.string "$n").asNumber? = none := rfl
  obtain ⟨hexact, -, -⟩ := sum_exact hexpr givesInteger_brimming
  have htotal : total (addends (.string "$n") brimming) =
      0x7fffffffffffffff := by
    rw [addends_brimming]
    decide
  exact ⟨hperm, hstays, htotal ▸ hexact brimmingLast hperm hstays⟩

end DocumentStore.Aggregation
