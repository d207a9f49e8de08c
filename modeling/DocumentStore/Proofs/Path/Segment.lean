import DocumentStore.Path.Reader
import DocumentStore.Proofs.Number.Text
import Mathlib.Data.List.TakeWhile

/-!
# What the parts of a path stand for

A plain text stands for an index if it is printed the way the decimal of one is,
and for a key otherwise. Between brackets an index may have blanks around it, a
plus sign and zeros in front. `Stands` and `Numeral` say so without the reader's
tests, and `ofPlain_eq_iff` and `ofBracket?_eq_some_iff` say that the tests come
to that.
-/

namespace DocumentStore

/-! ## Trimming -/

namespace Text

variable {text before core after : List Char}

/-- What is trimmed off a text are blanks at its two ends. -/
theorem exists_blanks_trim (text : List Char) :
    ∃ before after, text = before ++ trim text ++ after ∧
      (∀ c ∈ before, isBlank c = true) ∧ ∀ c ∈ after, isBlank c = true := by
  let rest := text.dropWhile isBlank
  have hrest : rest = (rest.reverse.dropWhile isBlank).reverse ++
      (rest.reverse.takeWhile isBlank).reverse := by
    rw [← List.reverse_append, List.takeWhile_append_dropWhile,
      List.reverse_reverse]
  refine ⟨text.takeWhile isBlank, (rest.reverse.takeWhile isBlank).reverse,
    ?_, ?_, ?_⟩
  · rw [trim, List.append_assoc, ← hrest, List.takeWhile_append_dropWhile]
  · intro c hc
    exact List.mem_takeWhile_imp hc
  · intro c hc
    exact List.mem_takeWhile_imp (List.mem_reverse.mp hc)

theorem dropWhile_blanks_append (hbefore : ∀ c ∈ before, isBlank c = true)
    (hne : core ≠ []) (hhead : ∀ c ∈ core.head?, isBlank c = false) :
    (before ++ (core ++ after)).dropWhile isBlank = core ++ after := by
  obtain ⟨c, rest, rfl⟩ := List.exists_cons_of_ne_nil hne
  have hc : isBlank c = false := hhead c rfl
  rw [List.dropWhile_append_of_pos hbefore, List.cons_append,
    List.dropWhile_cons_of_neg]
  rw [hc]
  exact Bool.false_ne_true

/-- Blanks around a text that neither starts nor ends with one are trimmed
off. -/
theorem trim_append (hbefore : ∀ c ∈ before, isBlank c = true)
    (hafter : ∀ c ∈ after, isBlank c = true) (hne : core ≠ [])
    (hhead : ∀ c ∈ core.head?, isBlank c = false)
    (hlast : ∀ c ∈ core.getLast?, isBlank c = false) :
    trim (before ++ core ++ after) = core := by
  have hafter' : ∀ c ∈ after.reverse, isBlank c = true :=
    fun c hc => hafter c (List.mem_reverse.mp hc)
  have hback : (after.reverse ++ (core.reverse ++ [])).dropWhile isBlank =
      core.reverse ++ [] := by
    refine dropWhile_blanks_append hafter' ?_ ?_
    · simpa using hne
    · simpa using hlast
  rw [trim, List.append_assoc, dropWhile_blanks_append hbefore hne hhead,
    List.reverse_append]
  rw [List.append_nil] at hback
  rw [hback, List.reverse_reverse]

/-- No digit and no sign is a blank. -/
theorem isBlank_of_isDigit {c : Char} (hc : c.isDigit = true) :
    isBlank c = false := by
  obtain ⟨hlow, hhigh⟩ := Char.isDigit_iff_toNat.mp hc
  have hzero : '0'.toNat = 48 := rfl
  have hnine : '9'.toNat = 57 := rfl
  simp only [isBlank, blankRanges, Ranges.contains, List.any_cons, List.any_nil,
    Bool.or_false, Bool.or_eq_false_iff, Bool.and_eq_false_iff,
    decide_eq_false_iff_not]
  omega

theorem isBlank_plus : isBlank '+' = false := rfl

end Text

/-! ## Plain texts -/

namespace Path

variable {text : List Char} {segment : Segment}

/-- What a plain text stands for: the index whose decimal it is, if that is in
range, and the key otherwise. -/
inductive Stands : List Char → Segment → Prop
  | index (i : Nat) (hi : i < Segment.indexLimit) :
      Stands (Nat.toDigits 10 i) (.index i)
  | key (text : List Char)
      (hno : ∀ i < Segment.indexLimit, text ≠ Nat.toDigits 10 i) :
      Stands text (.key (String.ofList text))

theorem isCanonical_iff_isWhole :
    Segment.isCanonical text = true ↔ Number.IsWhole text := by
  unfold Segment.isCanonical
  split
  · exact iff_of_false Bool.false_ne_true fun h => h.1 rfl
  · exact iff_of_true rfl (Number.isWhole_toDigits 0)
  · next first rest hzero =>
      rw [Bool.and_eq_true, Bool.and_eq_true, bne_iff_ne, List.all_eq_true]
      refine ⟨?_, ?_⟩
      · rintro ⟨⟨hne, hfirst⟩, hrest⟩
        refine Number.isWhole_of_head (List.cons_ne_nil _ _) ?_ fun h =>
          hne (Option.some.inj h)
        exact List.forall_mem_cons.mpr ⟨hfirst, hrest⟩
      · rintro ⟨-, hall, hlead⟩
        obtain ⟨hfirst, hrest⟩ := List.forall_mem_cons.mp hall
        refine ⟨⟨?_, hfirst⟩, hrest⟩
        rintro rfl
        cases rest with
        | nil => exact hzero rfl rfl
        | cons c rest => exact hlead c rest rfl

/-- A text is canonical if it is the decimal of its value. -/
theorem isCanonical_iff : Segment.isCanonical text = true ↔
    text = Nat.toDigits 10 (Nat.ofDigitChars 10 text 0) := by
  rw [isCanonical_iff_isWhole]
  refine ⟨fun h => (Number.toDigits_of_isWhole h).symm, ?_⟩
  intro h
  rw [h]
  exact Number.isWhole_toDigits _

theorem stands_ofPlain (text : List Char) :
    Stands text (Segment.ofPlain text) := by
  rw [Segment.ofPlain]
  split
  · next h =>
      have hindex := Stands.index _ h.2
      rwa [← isCanonical_iff.mp h.1] at hindex
  · next h =>
      refine .key text ?_
      rintro i hi rfl
      refine h ⟨isCanonical_iff_isWhole.mpr (Number.isWhole_toDigits i), ?_⟩
      rwa [Nat.ofDigitChars_ten_toDigits]

theorem ofPlain_eq_iff :
    Segment.ofPlain text = segment ↔ Stands text segment := by
  refine ⟨?_, ?_⟩
  · rintro rfl
    exact stands_ofPlain text
  · intro h
    cases h with
    | index i hi =>
        have hcanonical : Segment.isCanonical (Nat.toDigits 10 i) = true :=
          isCanonical_iff_isWhole.mpr (Number.isWhole_toDigits i)
        rw [Segment.ofPlain, Nat.ofDigitChars_ten_toDigits,
          if_pos ⟨hcanonical, hi⟩]
    | key text hno =>
        rw [Segment.ofPlain, if_neg]
        rintro ⟨hcanonical, hlimit⟩
        exact hno _ hlimit (isCanonical_iff.mp hcanonical)

/-! ## Indices between brackets -/

/-- A text between brackets stands for an index: digits, with a plus sign before
them or not, and blanks around. -/
def Numeral (text : List Char) (i : Nat) : Prop :=
  ∃ before sign digits after, text = before ++ (sign ++ digits) ++ after ∧
    (∀ c ∈ before, Text.isBlank c = true) ∧
    (∀ c ∈ after, Text.isBlank c = true) ∧
    (sign = [] ∨ sign = ['+']) ∧ digits ≠ [] ∧
    (∀ c ∈ digits, c.isDigit = true) ∧
    Nat.ofDigitChars 10 digits 0 = i ∧ i < Segment.indexLimit

/-- The digits of an index, its sign taken off. -/
def unsigned (text : List Char) : List Char :=
  match text with
  | '+' :: rest => rest
  | text => text

theorem unsigned_append {sign digits : List Char}
    (hsign : sign = [] ∨ sign = ['+'])
    (hdigits : ∀ c ∈ digits, c.isDigit = true) :
    unsigned (sign ++ digits) = digits := by
  rcases hsign with rfl | rfl
  · rw [List.nil_append]
    unfold unsigned
    split
    · next rest =>
        have hplus := hdigits '+' List.mem_cons_self
        cases hplus
    · rfl
  · rfl

theorem exists_sign_unsigned (text : List Char) :
    ∃ sign, text = sign ++ unsigned text ∧ (sign = [] ∨ sign = ['+']) := by
  unfold unsigned
  split
  · exact ⟨['+'], rfl, .inr rfl⟩
  · exact ⟨[], rfl, .inl rfl⟩

theorem ofBracket?_eq (text : List Char) : Segment.ofBracket? text =
    if unsigned (Text.trim text) ≠ [] ∧
      (unsigned (Text.trim text)).all Char.isDigit = true ∧
        Nat.ofDigitChars 10 (unsigned (Text.trim text)) 0 <
          Segment.indexLimit then
      some (.index (Nat.ofDigitChars 10 (unsigned (Text.trim text)) 0))
    else none := rfl

theorem ofBracket?_eq_some_iff :
    Segment.ofBracket? text = some segment ↔
      ∃ i, Numeral text i ∧ segment = .index i := by
  rw [ofBracket?_eq]
  refine ⟨?_, ?_⟩
  · intro h
    split at h
    · next hdigits =>
        obtain ⟨hne, hall, hlimit⟩ := hdigits
        obtain ⟨before, after, htext, hbefore, hafter⟩ :=
          Text.exists_blanks_trim text
        obtain ⟨sign, htrim, hsign⟩ := exists_sign_unsigned (Text.trim text)
        refine ⟨_, ⟨before, sign, unsigned (Text.trim text), after, ?_, hbefore,
          hafter, hsign, hne,
          List.all_eq_true.mp hall, rfl, hlimit⟩, (Option.some.inj h).symm⟩
        rw [← htrim]
        exact htext
    · cases h
  · rintro ⟨i, ⟨before, sign, digits, after, rfl, hbefore, hafter, hsign, hne,
        hall, rfl, hlimit⟩, rfl⟩
    have hcore : Text.trim (before ++ (sign ++ digits) ++ after) =
        sign ++ digits := by
      refine Text.trim_append hbefore hafter ?_ ?_ ?_
      · simp [hne]
      · intro c hc
        rcases hsign with rfl | rfl
        · exact Text.isBlank_of_isDigit (hall c (List.mem_of_mem_head? hc))
        · cases hc
          exact Text.isBlank_plus
      · intro c hc
        rw [List.getLast?_append, List.getLast?_eq_some_getLast hne,
          Option.some_or] at hc
        cases hc
        exact Text.isBlank_of_isDigit (hall _ (List.getLast_mem hne))
    rw [hcore, unsigned_append hsign hall,
      if_pos ⟨hne, List.all_eq_true.mpr hall, hlimit⟩]

end Path

end DocumentStore
