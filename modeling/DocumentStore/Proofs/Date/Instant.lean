import DocumentStore.Date.Instant
import DocumentStore.Proofs.Date.Calendar

/-!
# Instants in order

Instants are ordered by their seconds and then by how far the second has run, so
their order is the lexicographic one of two numbers, and two that compare as
equal are the same.

The milliseconds that name an instant are told by it, and all of them lie within
the integers that a double can hold.
-/

namespace DocumentStore

namespace Instant

/-- A second that starts has run no further than a second can. -/
theorem zero_lt_bound : 0 < 2000000000 := by decide

/-! ## The order -/

instance : Ord Instant := ⟨Instant.compare⟩

instance : Std.TransOrd Instant :=
  inferInstanceAs (Std.TransCmp
    (compareLex (compareOn Instant.seconds) (compareOn Instant.nanos)))

theorem compare_eq_iff {s t : Instant} : s.compare t = .eq ↔ s = t := by
  obtain ⟨seconds, nanos, hlt⟩ := s
  obtain ⟨seconds', nanos', hlt'⟩ := t
  rw [Instant.compare, Ordering.then_eq_eq, Std.LawfulEqCmp.compare_eq_iff_eq,
    Std.LawfulEqCmp.compare_eq_iff_eq, Instant.mk.injEq]

/-! ## Milliseconds -/

/-- The years that milliseconds can name do not go past the integers of 53
bits. -/
theorem natAbs_lt_of_ofMillis? {millis : Int} {t : Instant}
    (h : ofMillis? millis = some t) :
    millis.natAbs < 0x20000000000000 := by
  have hseconds : millis.fdiv 1000 = millis / 1000 :=
    Int.fdiv_eq_ediv_of_nonneg _ (by decide)
  have hday : (millis / 1000).fdiv 86400 = millis / 1000 / 86400 :=
    Int.fdiv_eq_ediv_of_nonneg _ (by decide)
  obtain ⟨inner, hleast, hgreatest, hyear⟩ :=
    Date.Day.year_ofNumber (millis / 1000 / 86400)
  simp only [ofMillis?, hseconds, hday, hyear, leastYear, greatestYear,
    Date.epoch, Date.cycleDays] at h
  split at h
  · omega
  · cases h

/-- No two numbers of milliseconds name one instant. -/
theorem ofMillis?_injective {millis other : Int} {t : Instant}
    (h : ofMillis? millis = some t) (hother : ofMillis? other = some t) :
    millis = other := by
  have hdiv : ∀ n : Int, n.fdiv 1000 = n / 1000 :=
    fun n => Int.fdiv_eq_ediv_of_nonneg n (by decide)
  have hmod : ∀ n : Int, n.fmod 1000 = n % 1000 :=
    fun n => Int.fmod_eq_emod_of_nonneg n (by decide)
  simp only [ofMillis?, hdiv, hmod] at h hother
  split at h
  · split at hother
    · rw [← Option.some.inj hother, Option.some.injEq, Instant.mk.injEq] at h
      omega
    · cases hother
  · cases h

end Instant

end DocumentStore
