import DocumentStore.Proofs.Date.Instant
import DocumentStore.Value.Equality
import DocumentStore.Value.Order

/-!
# The order of sorts is a total preorder

Sorting compares the ranks of two values first, and only then what can be
compared in them: the units of numbers, the texts of strings, booleans, and the
instants of dates. A value has one of these four at most, and values of one rank
have the same one, so nothing changes if all four are compared one after
another, the ones that a value does not have being read as some fixed value.
That is a lexicographic order on five measures (`sortCompare_eq`), and it is a
total preorder because the five are ordered.

Where two values can be compared by themselves, the comparison is what sorting
goes by (`sortCompare_of_compare?`), and it finds them equal exactly if they are
alike (`compare?_eq_iff_alike`).
-/

namespace DocumentStore

namespace Value

variable {v w : Value} {a b c : Option Value} {o : Ordering}
  {fields : List (String × Value)}

/-! ## Ranks of objects -/

theorem rank_of_isDate (h : isDate (.object fields) = true) :
    (Value.object fields).rank = 6 :=
  if_pos h

theorem rank_of_not_isDate (h : isDate (.object fields) = false) :
    (Value.object fields).rank = if isPattern (.object fields) then 7 else 3 :=
  if_neg (by rw [h]; exact Bool.false_ne_true)

/-- An object shares its rank with objects only. -/
theorem isObject_of_rank_eq (h : v.rank = (Value.object fields).rank) :
    v.isObject = true := by
  have hobject : (Value.object fields).rank = 6 ∨
      (Value.object fields).rank = 7 ∨
      (Value.object fields).rank = 3 := by
    simp only [rank]
    split
    · exact .inl rfl
    · split
      · exact .inr (.inl rfl)
      · exact .inr (.inr rfl)
  cases v with
  | object xs => rfl
  | _ =>
      rw [← h] at hobject
      simp [rank] at hobject

/-- Dates have a rank to themselves. -/
theorem isDate_iff_rank : v.isDate = true ↔ v.rank = 6 := by
  cases v with
  | object fields =>
      cases h : isDate (.object fields) with
      | true => simp [rank_of_isDate h]
      | false =>
          rw [rank_of_not_isDate h]
          split <;> simp
  | _ => simp [isDate, asDate?, rank]

/-- Of two values of one rank, both are dates or none is. -/
theorem isDate_eq_of_rank_eq (h : v.rank = w.rank) : v.isDate = w.isDate := by
  rw [Bool.eq_iff_iff, isDate_iff_rank, isDate_iff_rank, h]

/-! ## Five measures -/

/-- The rank of a value, with a missing one in front of all. -/
def place : Option Value → Nat
  | none => 0
  | some v => v.rank + 1

def unitsOf : Option Value → Int
  | some (.number n) => n.units
  | _ => 0

def textOf : Option Value → String
  | some (.string s) => s
  | _ => ""

def truthOf : Option Value → Bool
  | some (.bool b) => b
  | _ => false

/-- The instant of a date, the start of 1970 for everything else. -/
def instantOf (found : Option Value) : Instant :=
  (found.bind asDate?).getD ⟨0, 0, Instant.zero_lt_bound⟩

/-- The order by what can be compared, one measure after another. -/
def contentCompare : Option Value → Option Value → Ordering :=
  compareLex (compareOn unitsOf) <| compareLex (compareOn textOf) <|
    compareLex (compareOn truthOf) (compareOn instantOf)

def measureCompare : Option Value → Option Value → Ordering :=
  compareLex (compareOn place) contentCompare

instance : Std.TransCmp contentCompare :=
  inferInstanceAs (Std.TransCmp
    (compareLex (compareOn unitsOf) <| compareLex (compareOn textOf) <|
    compareLex (compareOn truthOf) (compareOn instantOf)))

instance : Std.TransCmp measureCompare :=
  inferInstanceAs (Std.TransCmp (compareLex (compareOn place) contentCompare))

/-- The four measures of content, taken apart. -/
theorem contentCompare_eq (a b : Option Value) : contentCompare a b =
    (compare (unitsOf a) (unitsOf b)).then ((compare (textOf a) (textOf b)).then
      ((compare (truthOf a) (truthOf b)).then
        ((instantOf a).compare (instantOf b)))) := rfl

/-- Within a rank, what can be compared is compared and everything else is
equal. -/
theorem contentCompare_of_rank_eq (h : v.rank = w.rank) :
    contentCompare (some v) (some w) = (compare? v w).getD .eq := by
  have hself : ∀ t : Instant, t.compare t = .eq :=
    fun t => Instant.compare_eq_iff.mpr rfl
  rw [contentCompare_eq]
  cases v with
  | object xs =>
      obtain ⟨ys, rfl⟩ : ∃ ys, w = .object ys := by
        cases w with
        | object ys => exact ⟨ys, rfl⟩
        | _ => cases isObject_of_rank_eq h.symm
      have hdate := isDate_eq_of_rank_eq h
      rw [isDate, isDate] at hdate
      cases hx : asDate? (.object xs) with
      | some s =>
          cases hy : asDate? (.object ys) with
          | some t =>
              simp [compare?, unitsOf, textOf, truthOf, instantOf, hx, hy]
          | none =>
              rw [hx, hy] at hdate
              cases hdate
      | none =>
          cases hy : asDate? (.object ys) with
          | some t =>
              rw [hx, hy] at hdate
              cases hdate
          | none =>
              simp [compare?, unitsOf, textOf, truthOf, instantOf,
                hx, hy, hself]
  | number m =>
      cases w with
      | number n =>
          simp [compare?, unitsOf, textOf, truthOf, instantOf, asDate?, hself]
      | object ys => cases isObject_of_rank_eq h
      | _ => simp [rank] at h
  | string s =>
      cases w with
      | string t =>
          simp [compare?, unitsOf, textOf, truthOf, instantOf, asDate?, hself]
      | object ys => cases isObject_of_rank_eq h
      | _ => simp [rank] at h
  | bool p =>
      cases w with
      | bool q =>
          simp [compare?, unitsOf, textOf, truthOf, instantOf, asDate?, hself]
      | object ys => cases isObject_of_rank_eq h
      | _ => simp [rank] at h
  | null =>
      cases w with
      | null => simp [compare?, unitsOf, textOf, truthOf, instantOf, hself]
      | object ys => cases isObject_of_rank_eq h
      | _ => simp [rank] at h
  | array xs =>
      cases w with
      | array ys =>
          simp [compare?, unitsOf, textOf, truthOf, instantOf, asDate?, hself]
      | object ys => cases isObject_of_rank_eq h
      | _ => simp [rank] at h

theorem measureCompare_eq (a b : Option Value) :
    measureCompare a b = (compare (place a) (place b)).then
      (contentCompare a b) := rfl

theorem sortCompare_eq : sortCompare = measureCompare := by
  funext a b
  rw [measureCompare_eq]
  cases a with
  | none =>
      cases b with
      | none => decide
      | some w =>
          have hlt : compare (place none) (place (some w)) = .lt :=
            Nat.compare_eq_lt.mpr (Nat.succ_pos w.rank)
          rw [hlt]
          rfl
  | some v =>
      cases b with
      | none =>
          have hgt : compare (place (some v)) (place none) = .gt :=
            Nat.compare_eq_gt.mpr (Nat.succ_pos v.rank)
          rw [hgt]
          rfl
      | some w =>
          have hplace : compare (place (some v)) (place (some w)) =
              compare v.rank w.rank := by
            simp [place, Nat.compare_eq_ite_lt]
          rw [hplace, sortCompare]
          split
          · next h =>
              rw [contentCompare_of_rank_eq h, Nat.compare_eq_eq.mpr h]
              rfl
          · next h =>
              have hne : compare v.rank w.rank ≠ .eq :=
                fun heq => h (Nat.compare_eq_eq.mp heq)
              cases hrank : compare v.rank w.rank with
              | lt => rfl
              | gt => rfl
              | eq => exact absurd hrank hne

instance : Std.TransCmp sortCompare := sortCompare_eq ▸ inferInstance

/-! ## Values that can be compared -/

theorem sortCompare_of_rank_eq (h : v.rank = w.rank) :
    sortCompare (some v) (some w) = (compare? v w).getD .eq :=
  if_pos h

theorem rank_eq_of_sortCompare (h : sortCompare (some v) (some w) = .eq) :
    v.rank = w.rank := by
  rw [sortCompare] at h
  split at h
  · next hrank => exact hrank
  · exact Nat.compare_eq_eq.mp h

theorem compare?_object {xs ys : List (String × Value)} :
    compare? (.object xs) (.object ys) = some o ↔
      ∃ s t, asDate? (.object xs) = some s ∧
      asDate? (.object ys) = some t ∧ s.compare t = o := by
  rw [compare?]
  split
  · next s t hs ht => simp [hs, ht]
  · next hnone =>
      refine iff_of_false (by simp) ?_
      rintro ⟨s, t, hs, ht, -⟩
      exact hnone s t hs ht

/-- Values that can be compared have one rank. -/
theorem rank_eq_of_compare? (h : compare? v w = some o) : v.rank = w.rank := by
  cases v with
  | object xs =>
      cases w with
      | object ys =>
          obtain ⟨s, t, hs, ht, -⟩ := compare?_object.mp h
          rw [rank_of_isDate (by rw [isDate, hs]; rfl),
            rank_of_isDate (by rw [isDate, ht]; rfl)]
      | _ => cases h
  | _ =>
      cases w with
      | _ => first | rfl | cases h

theorem sortCompare_of_compare? (h : compare? v w = some o) :
    sortCompare (some v) (some w) = o := by
  rw [sortCompare_of_rank_eq (rank_eq_of_compare? h), h, Option.getD_some]

/-- Comparing finds two values equal exactly if they are alike. -/
theorem compare?_eq_iff_alike (h : compare? v w = some o) :
    o = .eq ↔ v.alike w = true := by
  cases v with
  | object xs =>
      cases w with
      | object ys =>
          obtain ⟨s, t, hs, ht, rfl⟩ := compare?_object.mp h
          rw [Instant.compare_eq_iff]
          simp [alike, hs, ht]
      | _ => cases h
  | number m =>
      cases w with
      | number n =>
          cases h
          simp [alike, Number.alike]
      | _ => cases h
  | string s =>
      cases w with
      | string t =>
          cases h
          simp [alike]
      | _ => cases h
  | bool p =>
      cases w with
      | bool q =>
          cases h
          simp [alike]
      | _ => cases h
  | null => cases h
  | array xs => cases h

end Value

end DocumentStore
