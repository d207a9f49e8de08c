import DocumentStore.Double

/-!
# Rounding quotients

`Double.ofRatio?` sees nothing of a quotient but its value, and it leaves alone
what is a double already. Together these make every way of writing a double as a
quotient of integers come back to that double, and that is what a decimal text
hangs on: `0.5`, `0.50` and `5e-1` are three quotients of one value. Integers of
at most 53 bits are doubles already, so they keep their value.
-/

namespace DocumentStore.Double

/-! ## Quotients of one value -/

theorem roundHalfEven_mul {k : Nat} (hk : 0 < k) (num den : Nat) :
    roundHalfEven (k * num) (k * den) = roundHalfEven num den := by
  have hdiv : k * num / (k * den) = num / den := Nat.mul_div_mul_left num den hk
  have hmod : 2 * (k * num % (k * den)) = k * (2 * (num % den)) := by
    rw [Nat.mul_mod_mul_left, Nat.mul_left_comm]
  have hgt : 2 * (k * num % (k * den)) > k * den ↔ 2 * (num % den) > den := by
    rw [hmod]
    exact Nat.mul_lt_mul_left hk
  have heq : 2 * (k * num % (k * den)) = k * den ↔ 2 * (num % den) = den := by
    rw [hmod]
    exact Nat.mul_right_inj (by omega)
  simp only [roundHalfEven, hdiv, hgt, heq]

theorem ofRatio?_mul {k : Nat} (hk : 0 < k) (negative : Bool) (num den : Nat) :
    ofRatio? negative (k * num) (k * den) = ofRatio? negative num den := by
  have hshift : ∀ s, (k * den) <<< s = k * (den <<< s) := by
    intro s
    rw [Nat.shiftLeft_eq, Nat.shiftLeft_eq, Nat.mul_assoc]
  simp only [ofRatio?, Nat.mul_div_mul_left num den hk, hshift,
    roundHalfEven_mul hk]

/-! ## What is a double already -/

theorem roundHalfEven_shiftLeft (n s : Nat) :
    roundHalfEven (n <<< s) (1 <<< s) = n := by
  have hpos : 0 < 1 <<< s := Nat.shiftLeft_pos_iff.mpr Nat.one_pos
  have hmul : n <<< s = n * (1 <<< s) := by
    rw [Nat.shiftLeft_eq, Nat.shiftLeft_eq, Nat.one_mul]
  rw [hmul]
  simp only [roundHalfEven, Nat.mul_div_cancel n hpos, Nat.mul_mod_left]
  exact if_neg (by omega)

theorem log2_shiftLeft {n : Nat} (hn : n ≠ 0) (s : Nat) :
    (n <<< s).log2 = n.log2 + s := by
  induction s with
  | zero => rfl
  | succ s ih =>
      have hne : n <<< s ≠ 0 := fun h => hn (Nat.shiftLeft_eq_zero_iff.mp h)
      rw [Nat.shiftLeft_succ, Nat.log2_two_mul hne, ih, Nat.add_assoc]

/-- The scale that rounding chooses for a double is the one the double has. -/
theorem log2_magnitude (x : Double) : x.magnitude.log2 - 52 = x.shift := by
  have hlt := x.significand_lt
  rcases x.normal with hzero | hnormal
  · rw [magnitude, hzero, Nat.shiftLeft_zero]
    by_cases hs : x.significand = 0
    · rw [hs]; decide
    · have h52 : x.significand.log2 < 53 := (Nat.log2_lt hs).mpr hlt
      omega
  · have hs : x.significand ≠ 0 := by omega
    have hlow : 52 ≤ x.significand.log2 := (Nat.le_log2 hs).mpr hnormal
    have hhigh : x.significand.log2 < 53 := (Nat.log2_lt hs).mpr hlt
    rw [magnitude, log2_shiftLeft hs]
    omega

/-- The fields of a double are in range. -/
theorem pack?_fields (x : Double) :
    pack? x.negative x.significand x.shift = some x :=
  dif_pos ⟨x.significand_lt, x.shift_le, x.normal⟩

/-- A double, written as a whole number of units, rounds to itself. -/
theorem ofRatio?_magnitude (x : Double) :
    ofRatio? x.negative x.magnitude 1 = some x := by
  have hlt := x.significand_lt
  have hround : roundHalfEven x.magnitude (1 <<< x.shift) = x.significand :=
    roundHalfEven_shiftLeft x.significand x.shift
  simp only [ofRatio?, Nat.div_one, log2_magnitude, hround]
  rw [if_neg (by omega)]
  exact pack?_fields x

/-! ## Integers -/

/-- The bits of a number that has at most 53 of them, moved to the top. -/
theorem aligned_lt {m : Nat} (hlt : m < 0x20000000000000) :
    m <<< (52 - m.log2) < 0x20000000000000 := by
  by_cases hm : m = 0
  · rw [hm, Nat.zero_shiftLeft]
    decide
  · have hlog : m.log2 < 53 := (Nat.log2_lt hm).mpr hlt
    have hbits : m.log2 + 1 + (52 - m.log2) = 53 := by omega
    calc m <<< (52 - m.log2) = m * 2 ^ (52 - m.log2) := Nat.shiftLeft_eq _ _
      _ < 2 ^ (m.log2 + 1) * 2 ^ (52 - m.log2) :=
          Nat.mul_lt_mul_of_pos_right Nat.lt_log2_self (Nat.two_pow_pos _)
      _ = 2 ^ 53 := by rw [← Nat.pow_add, hbits]

theorem le_aligned {m : Nat} (hm : m ≠ 0) (hlt : m < 0x20000000000000) :
    0x10000000000000 ≤ m <<< (52 - m.log2) := by
  have hlog : m.log2 < 53 := (Nat.log2_lt hm).mpr hlt
  have hbits : m.log2 + (52 - m.log2) = 52 := by omega
  calc 0x10000000000000 = 2 ^ (m.log2 + (52 - m.log2)) := by rw [hbits]
    _ = 2 ^ m.log2 * 2 ^ (52 - m.log2) := Nat.pow_add _ _ _
    _ ≤ m * 2 ^ (52 - m.log2) := Nat.mul_le_mul_right _ (Nat.log2_self_le hm)
    _ = m <<< (52 - m.log2) := (Nat.shiftLeft_eq _ _).symm

/-- A positive integer of at most 53 bits, with a sign. -/
def ofSmall (negative : Bool) (m : Nat) (hm : m ≠ 0)
    (hlt : m < 0x20000000000000) : Double where
  negative := negative
  significand := m <<< (52 - m.log2)
  shift := unitBits - (52 - m.log2)
  significand_lt := aligned_lt hlt
  shift_le := Nat.le_trans (Nat.sub_le _ _) (by decide)
  normal := .inr (le_aligned hm hlt)

theorem magnitude_ofSmall {m : Nat} (negative : Bool) (hm : m ≠ 0)
    (hlt : m < 0x20000000000000) :
    (ofSmall negative m hm hlt).magnitude = m * one := by
  have hbits : 52 - m.log2 + (unitBits - (52 - m.log2)) = unitBits := by
    simp only [unitBits]
    omega
  rw [magnitude, ofSmall, ← Nat.shiftLeft_add, hbits, one, Nat.shiftLeft_eq,
    Nat.shiftLeft_eq, Nat.one_mul]

/-- An integer of at most 53 bits is a double. -/
theorem exists_ofInt? {n : Int} (h : n.natAbs < 0x20000000000000) :
    ∃ x, ofInt? n = some x ∧ x.units = n * one := by
  by_cases hzero : n = 0
  · subst hzero
    exact ⟨zero false, by decide +kernel, by decide +kernel⟩
  · have hne : n.natAbs ≠ 0 := Int.natAbs_ne_zero.mpr hzero
    have hmagnitude := magnitude_ofSmall (n < 0) hne h
    refine ⟨ofSmall (n < 0) n.natAbs hne h, ?_, ?_⟩
    · rw [ofInt?, ← hmagnitude]
      exact ofRatio?_magnitude (ofSmall (n < 0) n.natAbs hne h)
    · have hsign : (ofSmall (n < 0) n.natAbs hne h).negative =
          decide (n < 0) := rfl
      rw [units, hmagnitude, hsign, Int.natCast_mul]
      rcases Int.lt_or_le n 0 with hneg | hneg
      · rw [decide_eq_true hneg, if_pos rfl,
          Int.ofNat_natAbs_of_nonpos (Int.le_of_lt hneg), Int.neg_mul,
          Int.neg_neg]
      · rw [decide_eq_false (Int.not_lt.mpr hneg), if_neg Bool.false_ne_true,
          Int.natAbs_of_nonneg hneg]

end DocumentStore.Double
