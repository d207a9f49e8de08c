import DocumentStore.Value

/-!
# Integers among the results of arithmetic

The result of arithmetic on doubles is written as an integer if it is whole and
below a limit (`Number.wholeLimit`), and as a double otherwise. So a computation
that goes through doubles gives an integer exactly if the double it ends with is
that integer and the integer is below the limit (`Value.ofDouble?_eq_int_iff`),
and above the limit it never gives one.
-/

namespace DocumentStore

namespace Double

theorem one_pos : 0 < one := Nat.shiftLeft_pos_iff.mpr Nat.one_pos

theorem one_ne_zero : (one : Int) ≠ 0 :=
  Int.natCast_ne_zero.mpr (Nat.ne_of_gt one_pos)

theorem natAbs_units (x : Double) : x.units.natAbs = x.magnitude := by
  rw [units]
  split
  · rw [Int.natAbs_neg, Int.natAbs_natCast]
  · exact Int.natAbs_natCast _

theorem isIntegral_iff {x : Double} : x.isIntegral = true ↔ ∃ n :
    Int, x.units = n * one := by
  rw [isIntegral, beq_iff_eq, ← natAbs_units, ← Nat.dvd_iff_mod_eq_zero,
    ← Int.ofNat_dvd_left]
  exact exists_congr fun n => by rw [Int.mul_comm]

theorem floor_of_units {x : Double} {n : Int} (h : x.units = n * one) :
    x.floor = n := by
  rw [floor, h, Int.mul_fdiv_cancel _ one_ne_zero]

theorem magnitude_of_units {x : Double} {n : Int} (h : x.units = n * one) :
    x.magnitude = n.natAbs * one := by
  rw [← natAbs_units, h, Int.natAbs_mul, Int.natAbs_natCast]

end Double

namespace Number

theorem fits_of_lt_wholeLimit {n : Int}
    (h : n.natAbs < wholeLimit) : Fits n := by
  rw [wholeLimit] at h
  constructor <;> omega

/-- Whole doubles are integers below the limit and stay doubles from there
on. -/
theorem ofDouble_of_units {x : Double} {n : Int}
    (h : x.units = n * Double.one) :
    ofDouble x = if hlt : n.natAbs <
      wholeLimit then .int n (fits_of_lt_wholeLimit hlt)
      else .double x := by
  have hlimit : x.magnitude < wholeLimit * Double.one ↔
      n.natAbs < wholeLimit := by
    rw [Double.magnitude_of_units h]
    exact Nat.mul_lt_mul_right Double.one_pos
  rw [ofDouble, Double.isIntegral_iff.mpr ⟨n, h⟩, Bool.true_and]
  simp only [decide_eq_true_eq, hlimit, Double.floor_of_units h]
  split
  · next hlt =>
      rw [ofInt?, dif_pos (fits_of_lt_wholeLimit hlt), Option.getD_some]
  · rfl

/-- A double is written as an integer if it is that integer and the integer is
below the limit. -/
theorem ofDouble_eq_int_iff {x : Double} {n : Int} (hn : Fits n) :
    ofDouble x = .int n hn ↔ x.units = n * Double.one ∧
      n.natAbs < wholeLimit := by
  constructor
  · intro h
    by_cases hwhole : ∃ m : Int, x.units = m * Double.one
    · obtain ⟨m, hm⟩ := hwhole
      rw [ofDouble_of_units hm] at h
      split at h
      · next hlt =>
          cases h
          exact ⟨hm, hlt⟩
      · cases h
    · have hnone : x.isIntegral = false :=
        Bool.eq_false_iff.mpr fun h => hwhole (Double.isIntegral_iff.mp h)
      rw [ofDouble, hnone, Bool.false_and, if_neg Bool.false_ne_true] at h
      cases h
  · rintro ⟨hunits, hlt⟩
    rw [ofDouble_of_units hunits, dif_pos hlt]

end Number

namespace Value

theorem ofInt_of_fits {n : Int} (h : Fits n) :
    ofInt n = .number (.int n h) := by
  rw [ofInt, Number.ofInt?, dif_pos h]

/-- A computation on doubles gives an integer if it ends with that integer, and
below the limit. -/
theorem ofDouble?_eq_int_iff {result : Option Double} {n : Int} (hn : Fits n) :
    ofDouble? result = .number (.int n hn) ↔
      n.natAbs < Number.wholeLimit ∧ ∃ x, result = some x ∧
        x.units = n * Double.one := by
  cases result with
  | none =>
      refine iff_of_false nofun ?_
      rintro ⟨-, x, hx, -⟩
      cases hx
  | some x =>
      rw [ofDouble?, Value.number.injEq,
        Number.ofDouble_eq_int_iff hn, And.comm]
      simp only [Option.some.injEq, exists_eq_left']

end Value

end DocumentStore
