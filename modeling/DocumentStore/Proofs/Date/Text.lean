import DocumentStore.Proofs.Date.Calendar
import DocumentStore.Proofs.Number.Text
import DocumentStore.Proofs.Value.Alike

/-!
# Dates written and read again

An instant is written in fields of a fixed width, so its text can be taken apart
without looking at the digits, and each field is read as the number that was
written (`Instant.ofChars?_fields`). The parts that were written are then put
together to the same instant if the calendar is kept to and a second runs on
only at the end of a minute (`Instant.Regular`). Instants that were read are of
this kind, since an offset is a number of minutes.

What is left is the year. One of four digits is written as it is read, and any
other one with a sign, which is not read. Such years come from milliseconds, and
from an offset that leads across the end of the first or the last year.
-/

namespace DocumentStore

namespace Instant

open Number (AllDigits NoDigitFirst)

variable {t : Instant} {chars rest : List Char} {width n : Nat}

/-! ## Digits -/

theorem allDigits_padded (width n : Nat) : AllDigits (padded width n) :=
  (Number.allDigits_zeros _).append (Number.allDigits_toDigits n)

theorem ofDigitChars_padded (width n : Nat) :
    Nat.ofDigitChars 10 (padded width n) 0 = n := by
  rw [padded, Nat.ofDigitChars_append, Nat.ofDigitChars_replicate_zero,
    Nat.mul_zero, Nat.ofDigitChars_ten_toDigits]

theorem length_padded (hwidth : 0 < width) (h : n < Decimal.tenTo width) :
    (padded width n).length = width := by
  have hle : (Nat.toDigits 10 n).length ≤ width :=
    (Decimal.width_le_iff hwidth).mpr h
  rw [padded, List.length_append, List.length_replicate]
  omega

theorem digits?_padded (width n : Nat) : digits? (padded width n) = some n := by
  rw [digits?, if_pos (List.all_eq_true.mpr (allDigits_padded width n)),
    ofDigitChars_padded]

/-- A fraction of at most nine digits is read as nanoseconds. -/
theorem fraction?_padded (hwidth : 0 < width) (hnine : width ≤ 9)
    (h : n < Decimal.tenTo width) (hrest : NoDigitFirst rest) :
    fraction? ('.' :: (padded width n ++ rest)) =
      some (n * Decimal.tenTo (9 - width), rest) := by
  have hlength := length_padded hwidth h
  have hnine : (padded width n ++ List.replicate 9 '0').take 9 =
      padded width n ++ List.replicate (9 - width) '0' := by
    rw [List.take_append, List.take_of_length_le (by omega), hlength,
      List.take_replicate, Nat.min_eq_left (by omega)]
  have hvalue : Nat.ofDigitChars 10
      ((padded width n ++ List.replicate 9 '0').take 9) 0 =
      n * Decimal.tenTo (9 - width) := by
    rw [hnine, Nat.ofDigitChars_append, ofDigitChars_padded,
      Nat.ofDigitChars_replicate_zero, Nat.mul_comm]
    rfl
  rw [fraction?, Number.span_isDigit_append (allDigits_padded width n) hrest]
  rw [← hvalue]
  cases hdigits : padded width n with
  | nil =>
      rw [hdigits] at hlength
      exact absurd hlength (Nat.ne_of_lt hwidth)
  | cons c digits => rfl

theorem fraction?_fractionChars {nanos : Nat} (h : nanos < 1000000000)
    (hrest : NoDigitFirst rest) (hpoint : rest.head? ≠ some '.') :
    fraction? (fractionChars nanos ++ rest) = some (nanos, rest) := by
  have hthree : Decimal.tenTo 3 = 1000 ∧ Decimal.tenTo 6 = 1000000 ∧
      Decimal.tenTo 9 = 1000000000 ∧ Decimal.tenTo 0 = 1 := by decide
  obtain ⟨h3, h6, h9, h0⟩ := hthree
  rw [fractionChars]
  split
  · next hzero =>
      subst hzero
      rw [List.nil_append]
      unfold fraction?
      split
      · exact absurd rfl hpoint
      · rfl
  · split
    · next hmillis =>
        rw [List.cons_append,
          fraction?_padded (by decide) (by decide) (by omega) hrest, h6]
        exact congrArg (fun nanos => some (nanos, rest)) (by omega)
    · split
      · next hmicros =>
          rw [List.cons_append,
            fraction?_padded (by decide) (by decide) (by omega) hrest, h3]
          exact congrArg (fun nanos => some (nanos, rest)) (by omega)
      · rw [List.cons_append,
          fraction?_padded (by decide) (by decide) (by omega) hrest, h0,
          Nat.mul_one]

/-! ## Fields of a fixed width -/

/-- A text in fields is read field by field. -/
theorem ofChars?_fields {year month day hour minute second : List Char}
    (hyear : year.length = 4) (hmonth : month.length = 2)
    (hday : day.length = 2) (hhour : hour.length = 2)
    (hminute : minute.length = 2) (hsecond : second.length = 2)
    (rest : List Char) :
    ofChars? (year ++ '-' :: month ++ '-' :: day ++ 'T' :: hour ++
        ':' :: minute ++
        ':' :: second ++ rest) = (do
      let year ← digits? year
      let month ← digits? month
      let day ← digits? day
      let hour ← digits? hour
      let minute ← digits? minute
      let second ← digits? second
      let (nanos, rest) ← fraction? rest
      let offset ← offset? rest
      ofParts? ⟨year, month, day⟩ hour minute second nanos offset) := by
  obtain ⟨y1, y2, y3, y4, rfl⟩ : ∃ y1 y2 y3 y4, year = [y1, y2, y3, y4] := by
    match year, hyear with
    | [y1, y2, y3, y4], _ => exact ⟨y1, y2, y3, y4, rfl⟩
  obtain ⟨m1, m2, rfl⟩ := List.length_eq_two.mp hmonth
  obtain ⟨d1, d2, rfl⟩ := List.length_eq_two.mp hday
  obtain ⟨h1, h2, rfl⟩ := List.length_eq_two.mp hhour
  obtain ⟨n1, n2, rfl⟩ := List.length_eq_two.mp hminute
  obtain ⟨s1, s2, rfl⟩ := List.length_eq_two.mp hsecond
  simp only [List.cons_append, List.nil_append]
  rw [ofChars?]
  exact if_pos (by decide)

/-- No year that is read starts with a sign. -/
theorem ofChars?_of_no_digit {c : Char} (hc : c.isDigit = false)
    (chars : List Char) :
    ofChars? (c :: chars) = none := by
  unfold ofChars?
  split
  · next y1 y2 y3 y4 _ _ _ _ _ _ _ _ _ _ _ _ _ _ _ _ heq =>
      cases heq
      have hnone : digits? [c, y2, y3, y4] = none := by
        rw [digits?, List.all_cons, hc]
        rfl
      rw [hnone]
      split <;> rfl
  · rfl

/-! ## The parts of an instant -/

/-- The day of an instant. -/
def day (t : Instant) : Date.Day := Date.Day.ofNumber (t.seconds.fdiv 86400)

/-- A year of four digits. -/
def HasFourDigits (t : Instant) : Prop := 0 ≤ t.day.year ∧ t.day.year ≤ 9999

instance : Decidable t.HasFourDigits :=
  inferInstanceAs (Decidable (0 ≤ t.day.year ∧ t.day.year ≤ 9999))

/-- Only the last second of a minute runs for longer than a second. -/
def Regular (t : Instant) : Prop := 1000000000 ≤ t.nanos → t.seconds % 60 = 59

/-- The parts into which an instant is written make up the instant. -/
theorem ofParts?_parts (h : t.Regular) {time : Nat}
    (htime : time = (t.seconds.fmod 86400).toNat) :
    ofParts? t.day (time / 3600) (time / 60 % 60)
      (time % 60 + t.nanos / 1000000000)
      (t.nanos % 1000000000) 0 = some t := by
  obtain ⟨seconds, nanos, hnanos⟩ := t
  have hmod : seconds.fmod 86400 = seconds % 86400 :=
    Int.fmod_eq_emod_of_nonneg _ (by decide)
  have hdiv : seconds.fdiv 86400 = seconds / 86400 :=
    Int.fdiv_eq_ediv_of_nonneg _ (by decide)
  have hregular : 1000000000 ≤ nanos → seconds % 60 = 59 := h
  dsimp only at htime ⊢
  rw [hmod] at htime
  have hvalid : (day ⟨seconds, nanos, hnanos⟩).isValid = true :=
    Date.Day.isValid_ofNumber _
  have hnumber : (day ⟨seconds, nanos, hnanos⟩).toNumber = seconds / 86400 := by
    rw [day, Date.Day.toNumber_ofNumber, hdiv]
  rw [ofParts?, dif_pos ⟨hvalid, by omega, by omega, by omega, by omega⟩]
  simp only [hnumber]
  split
  · rw [Option.some.injEq, Instant.mk.injEq]
    omega
  · rw [Option.some.injEq, Instant.mk.injEq]
    omega

/-- An instant with a year of four digits is written in fields of a fixed width,
but for the fraction. -/
theorem toChars_eq (hyear : t.HasFourDigits) {time : Nat}
    (htime : time = (t.seconds.fmod 86400).toNat) :
    t.toChars = padded 4 t.day.year.natAbs ++ '-' :: padded 2 t.day.month ++
      '-' :: padded 2 t.day.day ++ 'T' :: padded 2 (time / 3600) ++
      ':' :: padded 2 (time / 60 % 60) ++ ':' :: padded 2
        (time % 60 + t.nanos / 1000000000) ++
      (fractionChars (t.nanos % 1000000000) ++
        ['+', '0', '0', ':', '0', '0']) := by
  have hfour : yearChars t.day.year = padded 4 t.day.year.natAbs := if_pos hyear
  rw [← hfour, ← List.append_assoc _ (fractionChars _), htime]
  rfl

/-- An instant with a year of four digits is read again. -/
theorem ofChars?_toChars (h : t.Regular) (hyear : t.HasFourDigits) :
    ofChars? t.toChars = some t := by
  obtain ⟨time, htime⟩ : ∃ time, time = (t.seconds.fmod 86400).toNat := ⟨_, rfl⟩
  rw [toChars_eq hyear htime]
  obtain ⟨hleast, hgreatest⟩ := hyear
  have h2 : Decimal.tenTo 2 = 100 := rfl
  have h4 : Decimal.tenTo 4 = 10000 := rfl
  have hmod : t.seconds.fmod 86400 = t.seconds % 86400 :=
    Int.fmod_eq_emod_of_nonneg _ (by decide)
  obtain ⟨hmonth, hday⟩ := Date.Day.ofNumber_lt (t.seconds.fdiv 86400)
  have hnanos := t.nanos_lt
  rw [ofChars?_fields (length_padded (by decide) (by omega))
    (length_padded (by decide) (h2 ▸ hmonth))
      (length_padded (by decide) (h2 ▸ hday))
    (length_padded (by decide) (by omega))
      (length_padded (by decide) (by omega))
    (length_padded (by decide) (by omega))]
  have hfraction : fraction? (fractionChars (t.nanos % 1000000000) ++
      ['+', '0', '0', ':', '0', '0']) =
        some (t.nanos % 1000000000, ['+', '0', '0', ':', '0', '0']) :=
    fraction?_fractionChars (by omega) (Number.noDigitFirst_cons rfl)
      (by decide)
  simp only [digits?_padded, hfraction, Option.bind_eq_bind, Option.bind_some]
  have hself :
      (⟨(t.day.year.natAbs : Int), t.day.month, t.day.day⟩ : Date.Day) =
        t.day := by
    rw [Int.natAbs_of_nonneg hleast]
  rw [hself]
  exact ofParts?_parts h htime

/-- An instant with another year is not. -/
theorem ofChars?_toChars_of_sign (hyear : ¬ t.HasFourDigits) :
    ofChars? t.toChars = none := by
  have hsign : yearChars t.day.year =
      (if t.day.year < 0 then '-' else '+') :: padded 4 t.day.year.natAbs :=
        if_neg hyear
  have hchars : ∃ chars,
      t.toChars = (if t.day.year < 0 then '-' else '+') :: chars := by
    rw [toChars]
    show ∃ chars, yearChars t.day.year ++ _ ++ _ ++ _ ++ _ ++ _ ++ _ ++ _ = _
    rw [hsign]
    exact ⟨_, rfl⟩
  obtain ⟨chars, hchars⟩ := hchars
  rw [hchars]
  refine ofChars?_of_no_digit ?_ chars
  split <;> rfl

/-! ## Instants that were read -/

/-- An offset is a number of minutes. -/
theorem offset?_mod {offset : Int} (h : offset? chars = some offset) :
    offset % 60 = 0 := by
  unfold offset? at h
  split at h
  · cases h
    rfl
  · cases h
    rfl
  · simp only [Option.bind_eq_bind, Option.bind_eq_some_iff] at h
    obtain ⟨hours, -, minutes, -, h⟩ := h
    split at h
    · cases h
    · split at h
      · cases h
        omega
      · split at h
        · cases h
          omega
        · cases h
  · cases h

theorem regular_of_ofParts? {d : Date.Day} {hour minute second nanos : Nat}
    {offset : Int} (hoffset : offset % 60 = 0)
    (h : ofParts? d hour minute second nanos offset = some t) :
    t.Regular := by
  rw [ofParts?] at h
  split at h
  · next hparts =>
      dsimp only at h
      split at h
      · cases h
        intro _
        dsimp only
        omega
      · cases h
        intro hlong
        exact absurd hlong (Nat.not_le.mpr hparts.2.2.2.2)
  · cases h

theorem regular_of_ofChars? (h : ofChars? chars = some t) : t.Regular := by
  unfold ofChars? at h
  split at h
  · split at h
    · simp only [Option.bind_eq_bind, Option.bind_eq_some_iff] at h
      obtain ⟨year, -, month, -, day, -, hour, -, minute, -, second, -,
        ⟨nanos, rest⟩, -, h⟩ := h
      obtain ⟨offset, hoffset, h⟩ := h
      exact regular_of_ofParts? (offset?_mod hoffset) h
    · cases h
  · cases h

theorem regular_of_ofMillis? {millis : Int} (h : ofMillis? millis = some t) :
    t.Regular := by
  rw [ofMillis?] at h
  split at h
  · cases h
    intro hlong
    dsimp only at hlong
    omega
  · cases h

end Instant

namespace Value

variable {v : Value} {t : Instant}

theorem regular_of_asDate? (h : v.asDate? = some t) : t.Regular := by
  obtain ⟨w, rfl, hw⟩ := asDate?_eq_some_iff.mp h
  rcases instant?_cases hw with ⟨text, rfl⟩ | ⟨n, hn, rfl, hmillis⟩
  · exact Instant.regular_of_ofChars? hw
  · exact Instant.regular_of_ofMillis? hmillis

theorem asDate?_ofDate (t : Instant) :
    (ofDate t).asDate? = Instant.ofChars? t.toChars := by
  rw [ofDate, asDate?_single, instant?, Instant.ofString?, Instant.toString,
    String.toList_ofList]

/-- A date is written as a date of the same instant, and as one alike to it,
exactly if it has a year of four digits. What is written for another year is no
date at all. -/
theorem reencoded_iff (h : v.asDate? = some t) :
    (t.HasFourDigits → (ofDate t).asDate? = some t ∧ (ofDate t).isDate = true ∧
      (ofDate t).alike v = true) ∧
    (¬ t.HasFourDigits → (ofDate t).asDate? = none ∧ (ofDate t).isDate = false ∧
      (ofDate t).alike v = false) := by
  refine ⟨?_, ?_⟩
  · intro hyear
    have hread : (ofDate t).asDate? = some t := by
      rw [asDate?_ofDate, Instant.ofChars?_toChars (regular_of_asDate? h) hyear]
    obtain ⟨w, rfl, -⟩ := asDate?_eq_some_iff.mp h
    refine ⟨hread, by rw [isDate, hread]; rfl, ?_⟩
    exact (alike_dates_iff hread h).mpr rfl
  · intro hyear
    have hnone : (ofDate t).asDate? = none := by
      rw [asDate?_ofDate, Instant.ofChars?_toChars_of_sign hyear]
    obtain ⟨w, rfl, hw⟩ := asDate?_eq_some_iff.mp h
    refine ⟨hnone, by rw [isDate, hnone]; rfl,
      Bool.eq_false_iff.mpr fun halike => ?_⟩
    -- Alike by their fields, the two would have one text, and it would name the
    -- instant.
    rw [ofDate, asDate?_single] at hnone
    have htext :=
      string_alike_iff.mp (alike_of_alike_single (.inl hnone) halike)
    rw [htext, hnone] at hw
    cases hw

/-- The middle of the leap second at the end of 2016, as a text at another
offset. -/
def leapSecondMiddle : Value :=
  .object [(dateKey, .string "2017-01-01T00:59:60.5+01:00")]

/-- The first second of the year 10000, in milliseconds. -/
def yearTenThousand : Value := .object [(dateKey, .ofInt 253402300800000)]

/-- The leap second is read again from what is written for it, the year 10000 is
not. -/
theorem reencoded_iff_leapSecond :
    (leapSecondMiddle.asDate? = some ⟨1483228799, 1500000000, by decide⟩ ∧
      (ofDate ⟨1483228799, 1500000000, by decide⟩).asDate? =
        some ⟨1483228799, 1500000000, by decide⟩ ∧
      (ofDate ⟨1483228799, 1500000000, by decide⟩).alike leapSecondMiddle =
        true) ∧
    yearTenThousand.asDate? = some ⟨253402300800, 0, by decide⟩ ∧
      (ofDate ⟨253402300800, 0, by decide⟩).isDate = false ∧
      (ofDate ⟨253402300800, 0, by decide⟩).alike yearTenThousand = false := by
  have hmiddle : leapSecondMiddle.asDate? =
      some ⟨1483228799, 1500000000, by decide⟩ := by
    decide +kernel
  have hlate : yearTenThousand.asDate? = some ⟨253402300800, 0, by decide⟩ := by
    decide +kernel
  obtain ⟨hread, -, halike⟩ := (reencoded_iff hmiddle).1 (by decide +kernel)
  obtain ⟨-, hnone, hapart⟩ := (reencoded_iff hlate).2 (by decide +kernel)
  exact ⟨⟨hmiddle, hread, halike⟩, hlate, hnone, hapart⟩

end Value

end DocumentStore
