import DocumentStore.Number.Text
import DocumentStore.Proofs.Double.Decimal
import Mathlib.Data.List.Induction
import Mathlib.Data.List.TakeDrop

/-!
# Numbers read back

The text of a number stands for that number, whichever of the layouts it is in.
An integer has no point and no exponent, and a double has one of the two, so the
reader never takes one for the other.

Both layouts of a double come down to one shape: a whole part, a fraction that
may be missing, and what follows it. What the digits stand for is then the
decimal that was written, up to zeros at its end, and `ofDecimal?_mul_tenTo`
says that those do not count.

That numbers are read back is what `CollectionFile.decode_encode` rests on, and
with it every result that says which documents are loaded from a file that was
written: of a save and of the calls after it, of a document that is written
back, and of insertions and updates in so far as they go through the file.
Results about documents in memory, and those that say which documents are
written, do not rest on it. They use of the text of numbers only that it is not
that of a string.
-/

namespace DocumentStore.Number

open Double

/-! ## Digits -/

/-- Nothing but digits. -/
def AllDigits (text : List Char) : Prop := ∀ c ∈ text, c.isDigit = true

/-- The digits end here. -/
def NoDigitFirst (text : List Char) : Prop :=
  ∀ c ∈ text.head?, c.isDigit = false

theorem allDigits_toDigits (n : Nat) : AllDigits (Nat.toDigits 10 n) :=
  fun _ hc => Nat.isDigit_of_mem_toDigits (by decide) (by decide) hc

theorem noDigitFirst_cons {c : Char} {rest : List Char}
    (hc : c.isDigit = false) :
    NoDigitFirst (c :: rest) := by
  intro x hx
  rwa [← Option.some.inj hx]

theorem noDigitFirst_nil : NoDigitFirst [] := by
  intro c hc
  cases hc

theorem AllDigits.append {a b : List Char} (ha : AllDigits a)
    (hb : AllDigits b) :
    AllDigits (a ++ b) := by
  intro c hc
  rcases List.mem_append.mp hc with h | h
  · exact ha c h
  · exact hb c h

theorem AllDigits.of_subset {a b : List Char} (hb : AllDigits b)
    (hab : a ⊆ b) : AllDigits a :=
  fun c hc => hb c (hab hc)

theorem allDigits_zeros (n : Nat) : AllDigits (List.replicate n '0') := by
  intro c hc
  rw [List.eq_of_mem_replicate hc]
  rfl

theorem head?_append {a b : List Char} (ha : a ≠ []) :
    (a ++ b).head? = a.head? := by
  cases a with
  | nil => exact absurd rfl ha
  | cons c a => rfl

/-- Digits are printed without zeros in front. -/
theorem head_toDigits {n : Nat} (hn : n ≠ 0) :
    (Nat.toDigits 10 n).head? ≠ some '0' := by
  induction n using Nat.base_induction 10 (by decide) with
  | single m hm =>
      rw [Nat.toDigits_of_lt_base hm, List.head?_cons]
      intro h
      have hchar : m.digitChar = '0' := Option.some.inj h
      have hval := congrArg (fun c : Char => c.toNat - 48) hchar
      rw [Nat.toNat_digitChar_sub_48_of_lt_ten hm] at hval
      exact hn hval
  | digit m k hk hm ih =>
      rw [← Nat.toDigits_append_toDigits (by decide) hm hk,
        head?_append Nat.toDigits_ne_nil]
      exact ih (by omega)

/-- Digits that the reader takes for a whole part: no zero stands before
others. -/
def IsWhole (digits : List Char) : Prop :=
  digits ≠ [] ∧ AllDigits digits ∧ ∀ c rest, digits ≠ '0' :: c :: rest

theorem isWhole_of_head {digits : List Char} (hne : digits ≠ [])
    (hall : AllDigits digits) (hhead : digits.head? ≠ some '0') :
    IsWhole digits := by
  refine ⟨hne, hall, ?_⟩
  rintro c rest rfl
  exact hhead rfl

theorem isWhole_toDigits (n : Nat) : IsWhole (Nat.toDigits 10 n) := by
  by_cases hn : n = 0
  · subst hn
    refine ⟨Nat.toDigits_ne_nil, allDigits_toDigits 0, ?_⟩
    intro c rest h
    rw [Nat.toDigits_zero] at h
    simp at h
  · exact isWhole_of_head Nat.toDigits_ne_nil (allDigits_toDigits n)
      (head_toDigits hn)

theorem digitChar_of_isDigit {c : Char} (hc : c.isDigit = true) :
    c.toNat - '0'.toNat < 10 ∧ (c.toNat - '0'.toNat).digitChar = c := by
  obtain ⟨hlow, hhigh⟩ := Char.isDigit_iff_toNat.mp hc
  have hnine : '9'.toNat = '0'.toNat + 9 := rfl
  have hlt : c.toNat - '0'.toNat < 10 := by omega
  refine ⟨hlt, Char.toNat_inj.mp ?_⟩
  have hzero : '0'.toNat = 48 := rfl
  rw [Nat.toNat_digitChar_of_lt_ten hlt]
  omega

/-- Digits without zeros in front are printed as they were read. -/
theorem toDigits_of_isWhole {digits : List Char} (h : IsWhole digits) :
    Nat.toDigits 10 (Nat.ofDigitChars 10 digits 0) = digits := by
  induction digits using List.reverseRecOn with
  | nil => exact absurd rfl h.1
  | append_singleton before c ih =>
      obtain ⟨-, hall, hzero⟩ := h
      obtain ⟨hlt, hchar⟩ := digitChar_of_isDigit (hall c (by simp))
      have hvalue : Nat.ofDigitChars 10 (before ++ [c]) 0 =
          10 * Nat.ofDigitChars 10 before 0 + (c.toNat - '0'.toNat) := by
        rw [Nat.ofDigitChars_append, Nat.ofDigitChars_cons,
          Nat.ofDigitChars_nil]
      rw [hvalue]
      by_cases hbefore : before = []
      · subst hbefore
        rw [Nat.ofDigitChars_nil, Nat.mul_zero, Nat.zero_add,
          Nat.toDigits_of_lt_base hlt, hchar]
        rfl
      · have hwhole : IsWhole before := by
          refine ⟨hbefore, fun d hd => hall d (List.mem_append_left _ hd), ?_⟩
          rintro d rest rfl
          exact hzero d (rest ++ [c]) rfl
        have hprinted := ih hwhole
        -- a zero in front would be followed by `c`
        have hpos : 0 < Nat.ofDigitChars 10 before 0 := by
          refine Nat.pos_of_ne_zero fun hnone => ?_
          rw [hnone, Nat.toDigits_zero] at hprinted
          subst hprinted
          exact hzero c [] rfl
        rw [← Nat.toDigits_append_toDigits (by decide) hpos hlt, hprinted,
          Nat.toDigits_of_lt_base hlt, hchar]

/-! ## The parts of a number -/

theorem span_isDigit_append {digits rest : List Char} (hall : AllDigits digits)
    (hrest : NoDigitFirst rest) :
    (digits ++ rest).span Char.isDigit = (digits, rest) := by
  rw [List.span_eq_takeWhile_dropWhile, List.takeWhile_append_of_pos hall,
    List.dropWhile_append_of_pos hall]
  cases rest with
  | nil => simp
  | cons c rest =>
      have hc : c.isDigit = false := hrest c rfl
      simp [hc]

theorem digits?_append {digits rest : List Char} (hne : digits ≠ [])
    (hall : AllDigits digits) (hrest : NoDigitFirst rest) :
    digits? (digits ++ rest) = some (digits, rest) := by
  rw [digits?, span_isDigit_append hall hrest]
  cases digits with
  | nil => exact absurd rfl hne
  | cons c digits => rfl

theorem whole?_append {digits rest : List Char} (hwhole : IsWhole digits)
    (hrest : NoDigitFirst rest) :
    whole? (digits ++ rest) = some (digits, rest) := by
  obtain ⟨hne, hall, hzero⟩ := hwhole
  rw [whole?, digits?_append hne hall hrest]
  -- `hzero` rules the first row of the match out
  simp only [Option.bind_eq_bind, Option.bind_some]

theorem fraction?_point {digits rest : List Char} (hne : digits ≠ [])
    (hall : AllDigits digits) (hrest : NoDigitFirst rest) :
    fraction? ('.' :: (digits ++ rest)) = some (digits, rest) :=
  digits?_append hne hall hrest

theorem exponentDigits?_toDigits (n : Nat) :
    exponentDigits? (Nat.toDigits 10 n) = some (n : Int) := by
  have h : digits? (Nat.toDigits 10 n ++ []) = some (Nat.toDigits 10 n, []) :=
    digits?_append Nat.toDigits_ne_nil (allDigits_toDigits n) noDigitFirst_nil
  rw [List.append_nil] at h
  rw [exponentDigits?, h]
  show some ((Nat.ofDigitChars 10 (Nat.toDigits 10 n) 0 : Nat) : Int) =
      some (n : Int)
  rw [Nat.ofDigitChars_ten_toDigits]

/-- An exponent as it is written. -/
def exponentChars (e : Int) : List Char :=
  'e' :: (if e < 0 then '-' else '+') :: Nat.toDigits 10 e.natAbs

theorem exponent?_exponentChars (e : Int) :
    exponent? (exponentChars e) = some e := by
  rw [exponentChars]
  by_cases he : e < 0
  · rw [if_pos he]
    show (exponentDigits? (Nat.toDigits 10 e.natAbs)).map (- ·) = some e
    rw [exponentDigits?_toDigits, Option.map_some]
    exact congrArg some (by omega)
  · rw [if_neg he]
    show exponentDigits? (Nat.toDigits 10 e.natAbs) = some e
    rw [exponentDigits?_toDigits]
    exact congrArg some (by omega)

/-- A text with a sign in front if it is negative. -/
def signed (negative : Bool) (text : List Char) : List Char :=
  if negative then '-' :: text else text

theorem sign_signed (negative : Bool) {text : List Char}
    (h : text.head? ≠ some '-') :
    sign (signed negative text) = (negative, text) := by
  cases negative with
  | true => rfl
  | false =>
      show sign text = (false, text)
      unfold sign
      split
      · exact absurd rfl h
      · rfl

theorem head_of_isWhole {digits rest : List Char} (h : IsWhole digits) :
    (digits ++ rest).head? ≠ some '-' := by
  obtain ⟨hne, hall, -⟩ := h
  cases digits with
  | nil => exact absurd rfl hne
  | cons c digits =>
      intro hc
      have hdigit := hall c List.mem_cons_self
      rw [Option.some.inj hc] at hdigit
      exact absurd hdigit (by decide)

/-! ## Doubles -/

/-- What the reader makes of a whole part and a tail that starts with no
digit. -/
theorem ofChars?_parts (negative : Bool)
    {whole tail fraction after : List Char} {e : Int} (hwhole : IsWhole whole)
    (hne : tail ≠ []) (htail : NoDigitFirst tail)
    (hfraction : fraction? tail = some (fraction, after))
    (hexponent : exponent? after = some e) :
    ofChars? (signed negative (whole ++ tail)) =
      (ofDecimal? negative
        ⟨Nat.ofDigitChars 10 (whole ++ fraction) 0, e - fraction.length⟩).map
        .double := by
  have hempty : tail.isEmpty = false := by
    cases tail with
    | nil => exact absurd rfl hne
    | cons c tail => rfl
  rw [ofChars?, sign_signed negative (head_of_isWhole hwhole)]
  simp only [whole?_append hwhole htail, hempty, hfraction, hexponent,
    Option.bind_eq_bind, Option.bind_some, Bool.false_eq_true, if_false]

/-- The plain layout is a whole part and a fraction with the value of the
decimal. -/
theorem plainChars_parts (d : Decimal) (hzero : d.digits ≠ 0 ∨ d.leading ≤ 0) :
    ∃ whole fraction k, plainChars (Nat.toDigits 10 d.digits) d.leading =
      whole ++ '.' :: fraction ∧
      IsWhole whole ∧ fraction ≠ [] ∧ AllDigits fraction ∧
      Nat.ofDigitChars 10 (whole ++ fraction) 0 = d.digits * Decimal.tenTo k ∧
      (0 : Int) - fraction.length = d.exponent - k := by
  have hall := allDigits_toDigits d.digits
  have hne : Nat.toDigits 10 d.digits ≠ [] := Nat.toDigits_ne_nil
  have hvalue : Nat.ofDigitChars 10 (Nat.toDigits 10 d.digits) 0 = d.digits :=
    Nat.ofDigitChars_ten_toDigits
  have hleading : d.leading =
      d.exponent + (Nat.toDigits 10 d.digits).length - 1 := rfl
  have hlength : 0 < (Nat.toDigits 10 d.digits).length :=
    Nat.length_toDigits_pos
  generalize hd : Nat.toDigits 10 d.digits = digits at *
  rw [plainChars]
  split
  · next hneg =>
      refine ⟨['0'], List.replicate (-d.leading - 1).toNat '0' ++ digits, 0,
        rfl, ?_, ?_, ?_, ?_, ?_⟩
      · exact isWhole_toDigits 0
      · simp [hne]
      · exact (allDigits_zeros _).append hall
      · rw [Nat.ofDigitChars_append, Nat.ofDigitChars_append]
        rw [show Nat.ofDigitChars 10 ['0'] 0 = 0 from rfl,
          Nat.ofDigitChars_replicate_zero, Nat.mul_zero, hvalue,
          Decimal.tenTo_zero, Nat.mul_one]
      · rw [List.length_append, List.length_replicate]
        omega
  · next hnonneg =>
      let whole := d.leading.toNat + 1
      let padded := digits ++ List.replicate (whole - digits.length) '0'
      have hpadded : AllDigits padded := hall.append (allDigits_zeros _)
      have hpaddedLength : padded.length = max digits.length whole := by
        simp only [padded, List.length_append, List.length_replicate]
        omega
      have hpaddedValue : Nat.ofDigitChars 10 padded 0 =
          d.digits * Decimal.tenTo (whole - digits.length) := by
        rw [Nat.ofDigitChars_append, hvalue, Nat.ofDigitChars_replicate_zero,
          Nat.mul_comm]
        rfl
      have htake : IsWhole (padded.take whole) := by
        by_cases hz : d.digits = 0
        · have hone : whole = 1 := by omega
          have hdigits : digits = ['0'] := by rw [← hd, hz, Nat.toDigits_zero]
          have hzeroText : padded.take whole = ['0'] := by
            simp only [padded, hone, hdigits]
            rfl
          rw [hzeroText]
          exact isWhole_toDigits 0
        · refine isWhole_of_head ?_
            (hpadded.of_subset (List.take_subset _ _)) ?_
          · intro h
            have := congrArg List.length h
            rw [List.length_take, hpaddedLength, List.length_nil] at this
            omega
          · have hhead := head_toDigits hz
            rw [hd] at hhead
            rw [List.head?_take, if_neg (by omega), head?_append hne]
            exact hhead
      show ∃ wholeText fraction k,
        padded.take whole ++ '.' :: (if (padded.drop whole).isEmpty then ['0']
            else padded.drop whole) =
          wholeText ++ '.' :: fraction ∧ _
      by_cases hempty : (padded.drop whole).isEmpty
      · -- the digits end before the point: a zero stands after it
        rw [if_pos hempty]
        have hle : padded.length ≤ whole :=
          List.drop_eq_nil_iff.mp (List.isEmpty_iff.mp hempty)
        have hshort : padded.take whole = padded :=
          List.take_of_length_le hle
        refine ⟨padded.take whole, ['0'], whole - digits.length + 1, rfl,
          htake, by simp,
          allDigits_zeros 1, ?_, ?_⟩
        · rw [hshort, Nat.ofDigitChars_append, hpaddedValue, Decimal.tenTo_succ,
            ← Nat.mul_assoc, Nat.mul_comm _ 10]
          rfl
        · rw [List.length_singleton]
          omega
      · rw [if_neg hempty]
        have hlong : ¬ padded.length ≤ whole := fun h =>
          hempty (List.isEmpty_iff.mpr (List.drop_eq_nil_iff.mpr h))
        refine ⟨padded.take whole, padded.drop whole, whole - digits.length,
          rfl, htake, ?_, ?_, ?_, ?_⟩
        · exact fun h => hempty (List.isEmpty_iff.mpr h)
        · exact hpadded.of_subset (List.drop_subset _ _)
        · rw [List.take_append_drop, hpaddedValue]
        · rw [List.length_drop]
          omega

theorem ofChars?_plainChars (negative : Bool) (d : Decimal)
    (hzero : d.digits ≠ 0 ∨ d.leading ≤ 0) :
    ofChars? (signed negative (plainChars (Nat.toDigits 10 d.digits) d.leading)) =
      (ofDecimal? negative d).map .double := by
  obtain ⟨whole, fraction, k, htext, hwhole, hne, hall, hvalue, hexponent⟩ :=
    plainChars_parts d hzero
  have hpoint : fraction? ('.' :: (fraction ++ [])) = some (fraction, []) :=
    fraction?_point hne hall noDigitFirst_nil
  rw [List.append_nil] at hpoint
  have htail : NoDigitFirst ('.' :: fraction) := noDigitFirst_cons rfl
  rw [htext, ofChars?_parts negative hwhole
    (List.cons_ne_nil _ _) htail hpoint rfl, hvalue, hexponent,
      ofDecimal?_mul_tenTo]

theorem isWhole_singleton {c : Char} (hc : c.isDigit = true) : IsWhole [c] := by
  refine ⟨List.cons_ne_nil _ _, ?_, ?_⟩
  · intro x hx
    rwa [List.mem_singleton.mp hx]
  · intro x rest h
    cases (List.cons.inj h).2

theorem ofChars?_scientificChars (negative : Bool) (d : Decimal) :
    ofChars?
      (signed negative (scientificChars (Nat.toDigits 10 d.digits) d.leading)) =
      (ofDecimal? negative d).map .double := by
  have hall := allDigits_toDigits d.digits
  have hvalue : Nat.ofDigitChars 10 (Nat.toDigits 10 d.digits) 0 = d.digits :=
    Nat.ofDigitChars_ten_toDigits
  have hleading : d.leading =
      d.exponent + (Nat.toDigits 10 d.digits).length - 1 := rfl
  have hexponent := exponent?_exponentChars d.leading
  have hmark : NoDigitFirst (exponentChars d.leading) := noDigitFirst_cons rfl
  obtain ⟨first, others, hdigits⟩ := List.exists_cons_of_ne_nil
    (Nat.toDigits_ne_nil (n := d.digits) (b := 10))
  rw [hdigits] at hall hvalue hleading ⊢
  have hfirst : IsWhole [first] :=
    isWhole_singleton (hall first List.mem_cons_self)
  have hothers : AllDigits others :=
    fun c hc => hall c (List.mem_cons_of_mem _ hc)
  cases others with
  | nil =>
      have hnone : fraction? (exponentChars d.leading) =
          some ([], exponentChars d.leading) := rfl
      have hread := ofChars?_parts negative hfirst
        (List.cons_ne_nil _ _) hmark hnone hexponent
      rw [List.append_nil, hvalue, List.length_nil, Int.natCast_zero,
        Int.sub_zero] at hread
      rw [List.length_singleton] at hleading
      have hsame : d.leading = d.exponent := by omega
      rw [hsame] at hread ⊢
      exact hread
  | cons second rest =>
      have hpoint :=
        fraction?_point (List.cons_ne_nil second rest) hothers hmark
      have hread := ofChars?_parts negative hfirst (List.cons_ne_nil _ _)
        (noDigitFirst_cons rfl) hpoint hexponent
      rw [List.length_cons] at hleading
      have hsame : d.leading - (second :: rest).length = d.exponent := by omega
      rw [show [first] ++ second :: rest = first :: second :: rest from rfl,
        hvalue, hsame] at hread
      rw [← hread, List.singleton_append]
      rfl

theorem doubleChars_eq (x : Double) :
    doubleChars x = signed x.negative
      (if leastPlain ≤ x.toDecimal.leading ∧
          x.toDecimal.leading ≤ greatestPlain then
        plainChars (Nat.toDigits 10 x.toDecimal.digits) x.toDecimal.leading
      else scientificChars (Nat.toDigits 10 x.toDecimal.digits)
        x.toDecimal.leading) := rfl

theorem integerChars_eq (n : Int) :
    integerChars n = signed (decide (n < 0)) (Nat.toDigits 10 n.natAbs) := by
  simp only [integerChars, signed, decide_eq_true_eq]

/-- The text of a double stands for that double. -/
theorem ofChars?_doubleChars (x : Double) :
    ofChars? (doubleChars x) = some (.double x) := by
  have hback : (ofDecimal? x.negative x.toDecimal).map Number.double =
      some (.double x) := by
    rw [ofDecimal?_toDecimal, Option.map_some]
  have hzero : x.toDecimal.digits ≠ 0 ∨ x.toDecimal.leading ≤ 0 := by
    by_cases hx : x.significand = 0
    · right
      rw [toDecimal, if_pos hx]
      decide
    · left
      intro h
      have hread := ofDecimal?_toDecimal x
      rw [ofDecimal?, if_pos h] at hread
      exact hx (congrArg Double.significand (Option.some.inj hread)).symm
  rw [doubleChars_eq]
  split
  · exact (ofChars?_plainChars x.negative x.toDecimal hzero).trans hback
  · exact (ofChars?_scientificChars x.negative x.toDecimal).trans hback

/-! ## All numbers -/

theorem ofChars?_integerChars (n : Int) (hfits : Fits n) :
    ofChars? (integerChars n) = some (.int n hfits) := by
  have hwhole := isWhole_toDigits n.natAbs
  have hparts : whole? (Nat.toDigits 10 n.natAbs ++ []) =
      some (Nat.toDigits 10 n.natAbs, []) :=
    whole?_append hwhole noDigitFirst_nil
  have hhead : (Nat.toDigits 10 n.natAbs ++ []).head? ≠ some '-' :=
    head_of_isWhole hwhole
  have hvalue : (if decide (n < 0) = true then -((n.natAbs : Nat) : Int)
      else (n.natAbs : Int)) = n := by
    simp only [decide_eq_true_eq]
    omega
  have hnozero : ¬ (decide (n < 0) = true ∧ n.natAbs = 0) := by
    simp only [decide_eq_true_eq]
    omega
  rw [List.append_nil] at hparts hhead
  rw [integerChars_eq, ofChars?, sign_signed _ hhead]
  simp only [hparts, Option.bind_eq_bind, Option.bind_some,
    List.isEmpty_nil, if_true, Nat.ofDigitChars_ten_toDigits,
    if_neg hnozero, hvalue]
  rw [show ofInt? n = some (.int n hfits) from dif_pos hfits]

/-- The text of a number stands for that number. -/
theorem ofChars?_toChars (n : Number) : ofChars? n.toChars = some n := by
  cases n with
  | int n hfits => exact ofChars?_integerChars n hfits
  | double x => exact ofChars?_doubleChars x

/-! ## The characters of a number -/

/-- The characters that numbers are written with. -/
def IsNumeric (c : Char) : Prop :=
  c.isDigit = true ∨ c = '-' ∨ c = '+' ∨ c = '.' ∨ c = 'e'

theorem AllDigits.isNumeric {text : List Char} (h : AllDigits text) :
    ∀ c ∈ text, IsNumeric c :=
  fun c hc => .inl (h c hc)

theorem isNumeric_plainChars {digits : List Char} (hall : AllDigits digits)
    (leading : Int) :
    ∀ c ∈ plainChars digits leading, IsNumeric c := by
  have hpadded : ∀ k, AllDigits (digits ++ List.replicate k '0') := fun k =>
    hall.append (allDigits_zeros k)
  intro c hc
  rw [plainChars] at hc
  split at hc
  · rcases List.mem_cons.mp hc with rfl | hc
    · exact .inl rfl
    rcases List.mem_cons.mp hc with rfl | hc
    · exact .inr (.inr (.inr (.inl rfl)))
    exact ((allDigits_zeros _).append hall).isNumeric c hc
  · rcases List.mem_append.mp hc with hc | hc
    · exact (hpadded _).isNumeric c (List.mem_of_mem_take hc)
    rcases List.mem_cons.mp hc with rfl | hc
    · exact .inr (.inr (.inr (.inl rfl)))
    split at hc
    · exact (allDigits_zeros 1).isNumeric c hc
    · exact (hpadded _).isNumeric c (List.mem_of_mem_drop hc)

theorem isNumeric_scientificChars {digits : List Char} (hall : AllDigits digits)
    (leading : Int) :
    ∀ c ∈ scientificChars digits leading, IsNumeric c := by
  intro c hc
  rcases List.mem_append.mp hc with hc | hc
  · match digits with
    | [] => cases hc
    | [first] => exact hall.isNumeric c hc
    | first :: second :: rest =>
        rcases List.mem_cons.mp hc with rfl | hc
        · exact .inl (hall _ List.mem_cons_self)
        rcases List.mem_cons.mp hc with rfl | hc
        · exact .inr (.inr (.inr (.inl rfl)))
        exact .inl (hall c (List.mem_cons_of_mem _ hc))
  · rcases List.mem_cons.mp hc with rfl | hc
    · exact .inr (.inr (.inr (.inr rfl)))
    rcases List.mem_cons.mp hc with rfl | hc
    · split
      · exact .inr (.inl rfl)
      · exact .inr (.inr (.inl rfl))
    exact (allDigits_toDigits _).isNumeric c hc

theorem isNumeric_signed {negative : Bool} {text : List Char}
    (h : ∀ c ∈ text, IsNumeric c) :
    ∀ c ∈ signed negative text, IsNumeric c := by
  intro c hc
  cases negative with
  | false => exact h c hc
  | true =>
      rcases List.mem_cons.mp hc with rfl | hc
      · exact .inr (.inl rfl)
      · exact h c hc

theorem isNumeric_toChars (n : Number) : ∀ c ∈ n.toChars, IsNumeric c := by
  cases n with
  | int n hfits =>
      show ∀ c ∈ integerChars n, IsNumeric c
      rw [integerChars_eq]
      exact isNumeric_signed (allDigits_toDigits _).isNumeric
  | double x =>
      show ∀ c ∈ doubleChars x, IsNumeric c
      rw [doubleChars_eq]
      refine isNumeric_signed ?_
      split
      · exact isNumeric_plainChars (allDigits_toDigits _) _
      · exact isNumeric_scientificChars (allDigits_toDigits _) _

end DocumentStore.Number
