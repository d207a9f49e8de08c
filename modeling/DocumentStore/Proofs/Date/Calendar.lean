import DocumentStore.Date.Calendar

/-!
# Days and their numbers

The day with a number is a day of the calendar, and its number is that one. What
has to be shown is that the year is found: the guess falls short by at most one,
so the day lies between the start of the year that is taken and the start of the
next (`exists_year`). The month is then found by the lengths of the months,
which add up to what lies between the two starts (`daysToYear_succ`).
-/

namespace DocumentStore.Date

/-- How many days so many months have. -/
def daysOf (lengths : List Nat) : Nat := lengths.foldr (· + ·) 0

theorem daysOf_cons (length : Nat) (rest : List Nat) :
    daysOf (length :: rest) = length + daysOf rest := rfl

/-! ## Years -/

/-- A year is as long as its months. -/
theorem daysToYear_succ {year : Int} (h : 0 ≤ year) (h' : year < 400) :
    daysToYear (year + 1) =
      daysToYear year + daysOf (monthLengths (isLeap year)) := by
  have hlengths : ∀ leap, daysOf (monthLengths leap) = if leap then 366
      else 365 := by
    decide
  have hleap : isLeap year = true ↔
      year % 4 = 0 ∧ (year % 100 ≠ 0 ∨ year % 400 = 0) := by
    simp [isLeap]
  rw [hlengths, daysToYear, daysToYear]
  split
  · next hyes =>
      rw [hleap] at hyes
      omega
  · next hno =>
      rw [hleap] at hno
      omega

/-- Years that are the same within their cycles are leap years together. -/
theorem isLeap_cycle (cycle inner : Int) :
    isLeap (cycle * 400 + inner) = isLeap inner := by
  have h4 : (cycle * 400 + inner) % 4 = inner % 4 := by omega
  have h100 : (cycle * 400 + inner) % 100 = inner % 100 := by omega
  have h400 : (cycle * 400 + inner) % 400 = inner % 400 := by omega
  rw [isLeap, isLeap, h4, h100, h400]

/-- The year of a cycle in which a day of the cycle lies, as it is found from a
guess. -/
theorem exists_year {inCycle : Int} (h : 0 ≤ inCycle)
    (h' : inCycle < cycleDays) :
    ∃ year, (if daysToYear (inCycle / 366 + 1) ≤ inCycle then inCycle / 366 + 1
        else inCycle / 366) = year ∧
      0 ≤ year ∧ year < 400 ∧ daysToYear year ≤ inCycle ∧
      inCycle < daysToYear (year + 1) := by
  rw [cycleDays] at h'
  by_cases hnext : daysToYear (inCycle / 366 + 1) ≤ inCycle
  · refine ⟨_, if_pos hnext, ?_⟩
    simp only [daysToYear] at hnext ⊢
    omega
  · refine ⟨_, if_neg hnext, ?_⟩
    simp only [daysToYear] at hnext ⊢
    omega

/-! ## Months -/

/-- The month in which a day lies, by the lengths of the months from a first one
on. -/
theorem exists_month (lengths : List Nat) (first : Nat) {left : Nat}
    (h : left < daysOf lengths) :
    ∃ k length, lengths[k]? = some length ∧
      monthAndDay first lengths left =
        (first + k, left - daysOf (lengths.take k) + 1) ∧
      daysOf (lengths.take k) ≤ left ∧
      left < daysOf (lengths.take k) + length := by
  induction lengths generalizing first left with
  | nil => exact absurd h (Nat.not_lt_zero left)
  | cons length rest ih =>
      rw [daysOf_cons] at h
      rw [monthAndDay]
      split
      · next hin =>
          refine ⟨0, length, rfl, rfl, Nat.zero_le _, ?_⟩
          rw [List.take_zero]
          exact (Nat.zero_add length).symm ▸ hin
      · next hout =>
          have hleft : left - length < daysOf rest := by omega
          obtain ⟨k, found, hfound, heq, hle, hlt⟩ := ih (first + 1) hleft
          refine ⟨k + 1, found, hfound, ?_, ?_, ?_⟩
          · rw [heq, List.take_succ_cons, daysOf_cons, Nat.sub_sub,
              Nat.add_assoc, Nat.add_comm 1 k]
          · rw [List.take_succ_cons, daysOf_cons]
            omega
          · rw [List.take_succ_cons, daysOf_cons]
            omega

namespace Day

/-- The day with a number, by the cycle of 400 years that it lies in, the year
of the cycle and the month of the year. -/
theorem exists_ofNumber (number : Int) : ∃ (inner : Int) (k length left : Nat),
    ofNumber number = ⟨(number + epoch) / cycleDays * 400 + inner, 1 + k,
      left - daysOf ((monthLengths (isLeap inner)).take k) + 1⟩ ∧
    0 ≤ inner ∧ inner < 400 ∧ (number + epoch) % cycleDays =
      daysToYear inner + left ∧
    (monthLengths (isLeap inner))[k]? = some length ∧
    daysOf ((monthLengths (isLeap inner)).take k) ≤ left ∧
    left < daysOf ((monthLengths (isLeap inner)).take k) + length := by
  obtain ⟨inner, hinner, hleast, hgreatest, hstart, hend⟩ :=
    exists_year (Int.emod_nonneg (number + epoch) (by decide))
      (Int.emod_lt_of_pos _ (by decide))
  rw [daysToYear_succ hleast hgreatest] at hend
  have hleft : ((number + epoch) % cycleDays - daysToYear inner).toNat <
      daysOf (monthLengths (isLeap inner)) := by
    omega
  obtain ⟨k, length, hlength, hmonth, hle, hlt⟩ := exists_month _ 1 hleft
  refine ⟨inner, k, length, _, ?_, hleast, hgreatest, ?_, hlength, hle, hlt⟩
  · rw [ofNumber]
    simp only [hinner, isLeap_cycle, hmonth]
  · omega

/-- A day is in the cycle of 400 years that its number falls in. -/
theorem year_ofNumber (number : Int) : ∃ inner : Int, 0 ≤ inner ∧ inner < 400 ∧
    (ofNumber number).year = (number + epoch) / cycleDays * 400 + inner := by
  obtain ⟨inner, k, length, left, hday, hleast, hgreatest, -⟩ :=
    exists_ofNumber number
  exact ⟨inner, hleast, hgreatest, by rw [hday]⟩

theorem isValid_ofNumber (number : Int) : (ofNumber number).isValid = true := by
  obtain ⟨inner, k, length, left, hday, -, -, -, hlength, hle, hlt⟩ :=
    exists_ofNumber number
  have hmonth : monthLength (isLeap inner) (1 + k) = length := by
    rw [monthLength, if_neg (by omega), Nat.add_sub_cancel_left, hlength,
      Option.getD_some]
  rw [hday, isValid]
  simp only [isLeap_cycle, hmonth, Bool.and_eq_true, decide_eq_true_eq]
  omega

theorem toNumber_ofNumber (number : Int) :
    (ofNumber number).toNumber = number := by
  obtain ⟨inner, k, length, left, hday, hleast, hgreatest, hstart, -, hle, -⟩ :=
    exists_ofNumber number
  have hcycle : ((number + epoch) / cycleDays * 400 + inner) / 400 =
      (number + epoch) / cycleDays := by
    omega
  have hinner : ((number + epoch) / cycleDays * 400 + inner) % 400 =
      inner := by omega
  have hbefore : daysToMonth (isLeap inner) (1 + k) =
      daysOf ((monthLengths (isLeap inner)).take k) := by
    rw [daysToMonth, Nat.add_sub_cancel_left, daysOf]
  have hsplit := Int.mul_ediv_add_emod (number + epoch) cycleDays
  rw [hday, toNumber]
  simp only [hcycle, hinner, isLeap_cycle, hbefore]
  rw [Int.mul_comm cycleDays] at hsplit
  omega

/-- The month and the day of the month have at most two digits. -/
theorem ofNumber_lt (number : Int) :
    (ofNumber number).month < 100 ∧ (ofNumber number).day < 100 := by
  obtain ⟨inner, k, length, left, hday, -, -, -, hlength, -, hlt⟩ :=
    exists_ofNumber number
  have hlengths : ∀ leap, ∀ length ∈ monthLengths leap, length ≤ 31 := by decide
  have hcount : ∀ leap, (monthLengths leap).length = 12 := by decide
  have hmonth := (List.getElem?_eq_some_iff.mp hlength).1
  have hshort := hlengths _ _ (List.mem_of_getElem? hlength)
  rw [hcount] at hmonth
  rw [hday]
  constructor
  · show 1 + k < 100
    omega
  · show left - daysOf _ + 1 < 100
    omega

end Day

end DocumentStore.Date
