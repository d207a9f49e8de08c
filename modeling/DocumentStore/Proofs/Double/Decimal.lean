import DocumentStore.Double.Decimal
import DocumentStore.Proofs.Double.Rounding

/-!
# Decimals that read back

Reading a decimal depends on its value alone: a zero more at the end of the
digits, made up for in the exponent, changes nothing. So the zeros that
`Decimal.trim` drops and those that a layout adds do not matter, and the decimal
a double is written as reads back as that double. Where no short decimal does,
the exact expansion is written, and it does because it is the double.
-/

namespace DocumentStore

namespace Decimal

theorem tenTo_pos (n : Nat) : 0 < tenTo n := Nat.pow_pos (by decide)

theorem tenTo_zero : tenTo 0 = 1 := rfl

theorem tenTo_succ (n : Nat) : tenTo (n + 1) = tenTo n * 10 := Nat.pow_succ 10 n

/-- A number has at most `k` digits exactly if it is below `10 ^ k`. -/
theorem width_le_iff {n k : Nat} (hk : 0 < k) : width n ≤ k ↔ n < tenTo k :=
  Nat.length_toDigits_le_iff (by decide) hk

theorem width_mul_ten {n : Nat} (hn : 0 < n) :
    width (n * 10) = width n + 1 := by
  have h := Nat.toDigits_append_toDigits (b := 10) (by decide) hn (d := 0)
    (by decide)
  rw [Nat.add_zero, Nat.mul_comm, Nat.toDigits_zero] at h
  rw [width, ← h, List.length_append, List.length_singleton, width]

theorem leading_mul_ten {n : Nat} (hn : 0 < n) (exponent : Int) :
    leading ⟨n * 10, exponent - 1⟩ = leading ⟨n, exponent⟩ := by
  simp only [leading, width_mul_ten hn]
  omega

/-- The zeros at the end of the digits are a power of ten. -/
theorem digits_eq_trim (d : Decimal) :
    ∃ k, d.digits = d.trim.digits * tenTo k ∧
      d.trim.exponent = d.exponent + k := by
  let isZero : Char → Bool := fun c => decide (c = '0')
  let zeros := (Nat.toDigits 10 d.digits).reverse.takeWhile isZero
  have hzeros : zeros = List.replicate zeros.length '0' := by
    refine List.eq_replicate_of_mem fun c hc => ?_
    exact of_decide_eq_true (List.all_eq_true.mp List.all_takeWhile c hc)
  have hsplit : Nat.toDigits 10 d.digits =
      ((Nat.toDigits 10 d.digits).reverse.dropWhile isZero).reverse ++
        zeros.reverse := by
    rw [← List.reverse_append, List.takeWhile_append_dropWhile,
      List.reverse_reverse]
  have hvalue : d.digits =
      tenTo zeros.length * Nat.ofDigitChars 10
        ((Nat.toDigits 10 d.digits).reverse.dropWhile isZero).reverse 0 := by
    have h := Nat.ofDigitChars_ten_toDigits (n := d.digits)
    rw [hsplit, Nat.ofDigitChars_append, hzeros, List.reverse_replicate,
      Nat.ofDigitChars_replicate_zero] at h
    exact h.symm
  refine ⟨zeros.length, ?_, rfl⟩
  have hdiv : d.digits / tenTo zeros.length * tenTo zeros.length = d.digits :=
    Nat.div_mul_cancel ⟨_, hvalue⟩
  exact hdiv.symm

end Decimal

namespace Double

open Decimal

/-! ## Reading depends on the value alone -/

theorem ofDecimal?_mul_ten (negative : Bool) (n : Nat) (exponent : Int) :
    ofDecimal? negative ⟨n * 10, exponent - 1⟩ =
      ofDecimal? negative ⟨n, exponent⟩ := by
  rcases Nat.eq_zero_or_pos n with rfl | hn
  · rfl
  have hne : n ≠ 0 := by omega
  have hne' : n * 10 ≠ 0 := by omega
  simp only [ofDecimal?, if_neg hne, if_neg hne', leading_mul_ten hn]
  split
  · rfl
  split
  · rfl
  -- the exponents can stand on two sides of zero, which decides what is
  -- multiplied
  rcases Int.lt_trichotomy exponent 0 with hlt | rfl | hgt
  · rw [if_neg (by omega), if_neg (by omega)]
    obtain ⟨e, rfl⟩ : ∃ e : Nat, exponent = -(e : Int) :=
      ⟨exponent.natAbs, by omega⟩
    have hsucc : (-(-(e : Int) - 1)).toNat = e + 1 := by omega
    have hself : (-(-(e : Int))).toNat = e := by omega
    rw [hsucc, hself, tenTo_succ, Nat.mul_comm (tenTo e), Nat.mul_comm n,
      Nat.mul_assoc]
    exact ofRatio?_mul (by decide) negative _ _
  · rw [if_neg (by decide), if_pos (by decide)]
    have h := ofRatio?_mul (k := 10) (by decide) negative (n * one) 1
    rw [← Nat.mul_assoc, Nat.mul_comm 10 n] at h
    exact h.trans (by rw [Int.toNat_zero, tenTo_zero, Nat.mul_one])
  · rw [if_pos (by omega), if_pos (by omega)]
    obtain ⟨e, rfl⟩ : ∃ e : Nat, exponent = (e : Int) + 1 :=
      ⟨exponent.toNat - 1, by omega⟩
    have hpred : ((e : Int) + 1 - 1).toNat = e := by omega
    have hself : ((e : Int) + 1).toNat = e + 1 := by omega
    rw [hpred, hself, tenTo_succ, Nat.mul_comm (tenTo e) 10,
      ← Nat.mul_assoc n 10]

theorem ofDecimal?_mul_tenTo (negative : Bool) (n : Nat) (exponent : Int)
    (k : Nat) :
    ofDecimal? negative ⟨n * tenTo k, exponent - k⟩ =
      ofDecimal? negative ⟨n, exponent⟩ := by
  induction k with
  | zero =>
      rw [tenTo_zero, Nat.mul_one, Int.natCast_zero, Int.sub_zero]
  | succ k ih =>
      have hexp : exponent - ((k + 1 : Nat) : Int) =
          exponent - k - 1 := by omega
      rw [tenTo_succ, ← Nat.mul_assoc, hexp, ofDecimal?_mul_ten, ih]

theorem ofDecimal?_trim (negative : Bool) (d : Decimal) :
    ofDecimal? negative d.trim = ofDecimal? negative d := by
  obtain ⟨k, hdigits, hexponent⟩ := d.digits_eq_trim
  have h := ofDecimal?_mul_tenTo negative d.trim.digits d.trim.exponent k
  rw [← hdigits, hexponent, Int.add_sub_cancel] at h
  rw [← hexponent] at h
  exact h.symm

/-! ## What a double is written as -/

theorem fiveTo_pos (n : Nat) : 0 < Nat.pow 5 n := Nat.pow_pos (by decide)

theorem magnitude_pos {x : Double} (hx : x.significand ≠ 0) : 0 < x.magnitude :=
  Nat.shiftLeft_pos_iff.mpr (by omega)

theorem shiftLeft_lt {m n s t : Nat} (hmn : m < n) (hst : s ≤ t) :
    m <<< s < n <<< t := by
  rw [Nat.shiftLeft_eq, Nat.shiftLeft_eq]
  exact Nat.mul_lt_mul_of_lt_of_le hmn (Nat.pow_le_pow_right (by decide) hst)
    (Nat.two_pow_pos t)

theorem magnitude_lt (x : Double) : x.magnitude < 0x20000000000000 <<< 2045 :=
  shiftLeft_lt x.significand_lt x.shift_le

/-- The first digit of the expansion stands well within the range of reading. -/
theorem leading_expansion {x : Double} (hx : x.significand ≠ 0) :
    leastLeading ≤ x.expansion.leading ∧ x.expansion.leading ≤
      greatestLeading := by
  have hpos := magnitude_pos hx
  have hlt := magnitude_lt x
  have hupper : width x.expansion.digits ≤ 1475 := by
    refine (width_le_iff (by decide)).mpr ?_
    calc x.magnitude * Nat.pow 5 unitBits
        < 0x20000000000000 <<< 2045 * Nat.pow 5 unitBits :=
          Nat.mul_lt_mul_of_pos_right hlt (fiveTo_pos unitBits)
      _ ≤ tenTo 1475 := by decide +kernel
  have hlower : ¬ width x.expansion.digits ≤ 750 := by
    intro h
    have hsmall := (width_le_iff (by decide)).mp h
    have hlarge : tenTo 750 ≤ Nat.pow 5 unitBits := by decide +kernel
    have hexp : Nat.pow 5 unitBits ≤ x.expansion.digits :=
      Nat.le_mul_of_pos_left _ hpos
    omega
  have hunits : x.expansion.exponent = -1074 := rfl
  simp only [leading, hunits, leastLeading, greatestLeading]
  omega

theorem ofDecimal?_expansion {x : Double} (hx : x.significand ≠ 0) :
    ofDecimal? x.negative x.expansion = some x := by
  obtain ⟨hleast, hgreatest⟩ := leading_expansion hx
  have hdigits : x.expansion.digits ≠ 0 :=
    Nat.mul_ne_zero (Nat.ne_of_gt (magnitude_pos hx))
      (Nat.ne_of_gt (fiveTo_pos unitBits))
  have hexponent : ¬ 0 ≤ x.expansion.exponent := by
    have hunits : x.expansion.exponent = -1074 := rfl
    omega
  have hten : (-x.expansion.exponent).toNat = unitBits := rfl
  have hunit : Nat.pow 5 unitBits * one = tenTo unitBits := by decide +kernel
  simp only [ofDecimal?]
  rw [if_neg hdigits, if_neg (by omega), if_neg (by omega),
    if_neg hexponent, hten]
  show ofRatio? x.negative (x.magnitude * Nat.pow 5 unitBits * one)
      (tenTo unitBits) = some x
  rw [Nat.mul_assoc, hunit, Nat.mul_comm]
  have h := ofRatio?_mul (tenTo_pos unitBits) x.negative x.magnitude 1
  rw [Nat.mul_one] at h
  rw [h, ofRatio?_magnitude]

/-- A short decimal is only taken if it reads back. -/
theorem ofDecimal?_of_decimalOfWidth? {x : Double} {count : Nat} {d : Decimal}
    (h : x.decimalOfWidth? count = some d) :
    ofDecimal? x.negative d = some x := by
  unfold decimalOfWidth? at h
  extract_lets exponent num den below reads nearest other at h
  split at h
  · next hreads =>
      rw [← Option.some.inj h]
      exact of_decide_eq_true hreads
  · split at h
    · next hreads =>
        rw [← Option.some.inj h]
        exact of_decide_eq_true hreads
    · cases h

theorem eq_zero_of_significand {x : Double} (hx : x.significand = 0) :
    x = zero x.negative := by
  obtain ⟨negative, significand, shift, hlt, hle, hnormal⟩ := x
  subst hx
  obtain rfl : shift = 0 := by omega
  rfl

/-- The decimal that a double is written as reads back as the double. -/
theorem ofDecimal?_toDecimal (x : Double) :
    ofDecimal? x.negative x.toDecimal = some x := by
  rw [toDecimal]
  split
  · next hx => rw [eq_zero_of_significand hx]; rfl
  · next hx =>
      rw [ofDecimal?_trim]
      cases hfound : (List.range 17).findSome? fun i =>
        x.decimalOfWidth? (i + 1) with
      | none => exact ofDecimal?_expansion hx
      | some d =>
          obtain ⟨i, _, hi⟩ := List.exists_of_findSome?_eq_some hfound
          exact ofDecimal?_of_decimalOfWidth? hi

end Double

end DocumentStore
