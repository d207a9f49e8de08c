import DocumentStore.Proofs.Number.Whole
import DocumentStore.Proofs.Path.Frame
import DocumentStore.Proofs.Update.Fields

/-!
# Arithmetic on integers

Adding to a field and multiplying it are done on integers if both of them and
the result are in the signed range. The integers that a document can hold reach
further, up to those of 64 bits without a sign, and with one of these everything
is done on the nearest doubles instead. The result is then the exact integer
only by chance (`ByDoubles`), and never from the limit on above which whole
doubles stay doubles: adding zero turns such an integer into a double.

In the signed range arithmetic is that of the integers, so what was added can be
taken away again. What is written at the path leaves no trace of what was
written there before, so the document is then the very same.
-/

namespace DocumentStore.Update

open DocumentStore.Path (Diverge Kept Within)

variable {now : Instant} {op : Operator} {path : String} {field : Path}
  {onInts : Int → Int → Int} {onDoubles : Double → Double → Option Double}
  {current : Option Value}
  {x y n : Int} {new doc doc' : Value}

/-! ## The new value -/

/-- The operators of arithmetic, on integers and on doubles. -/
inductive Computes :
    Operator → (Int → Int → Int) → (Double → Double → Option Double) → Prop
  | inc : Computes .inc (· + ·) Double.add?
  | mul : Computes .mul (· * ·) Double.mul?

/-- An integer as a value. -/
def integer (n : Int) (fits : Fits n) : Value := .number (.int n fits)

/-- The integer that a field counts as: a missing one and null are zero. -/
inductive CountsAs : Option Value → Int → Prop
  | missing : CountsAs none 0
  | null : CountsAs (some .null) 0
  | integer (n : Int) (fits : Fits n) : CountsAs (some (integer n fits)) n

theorem countsAs_of_get {hx : Fits x}
    (h : field.get doc = some (integer x hx)) :
    CountsAs (field.get doc) x := by
  rw [h]
  exact .integer x hx

/-- Both integers and the result are in the signed range. -/
def AllSigned (x y n : Int) : Prop := FitsSigned x ∧ FitsSigned y ∧ FitsSigned n

instance : Decidable (AllSigned x y n) :=
  inferInstanceAs (Decidable (FitsSigned x ∧ FitsSigned y ∧ FitsSigned n))

/-- The double nearest to an integer that fits in 64 bits. -/
def nearest (n : Int) : Double := (Double.ofInt? n).getD (Double.zero false)

/-- The nearest doubles have the integer as their exact result, and it is
written as one. -/
def ByDoubles (onDoubles : Double → Double → Option Double)
    (x y n : Int) : Prop :=
  n.natAbs < Number.wholeLimit ∧
    ∃ z, onDoubles (nearest x) (nearest y) = some z ∧ z.units = n * Double.one

/-- The value that is written for two integers, where `n` is their exact
result. -/
def computed (onDoubles : Double → Double → Option Double)
    (x y n : Int) : Value :=
  if AllSigned x y n then .ofInt n
  else .ofDouble? (onDoubles (nearest x) (nearest y))

theorem computed_eq_integer_iff (hn : Fits n) :
    computed onDoubles x y n = integer n hn ↔
      AllSigned x y n ∨ ByDoubles onDoubles x y n := by
  rw [computed, integer]
  split
  · next h => exact iff_of_true (Value.ofInt_of_fits hn) (.inl h)
  · next h => rw [Value.ofDouble?_eq_int_iff hn, or_iff_right h, ByDoubles]

theorem arithmetic_integer (hx : Fits x) (hy : Fits y) :
    arithmetic op path onInts onDoubles (integer y hy) (some (integer x hx)) =
      .ok (computed onDoubles x y (onInts x y)) := by
  have hint : ∀ {k : Int} (hk : Fits k),
      Value.asInt? (.number (.int k hk)) = if FitsSigned k then some k
        else none := fun _ => rfl
  have hdouble : ∀ {k : Int} (hk : Fits k),
      Value.asDouble? (.number (.int k hk)) = some (nearest k) := fun _ => rfl
  simp only [arithmetic, integer, hint, hdouble, computed]
  by_cases hxs : FitsSigned x
  · by_cases hys : FitsSigned y
    · rw [if_pos hxs, if_pos hys]
      by_cases hn : FitsSigned (onInts x y)
      · rw [if_pos ⟨hxs, hys, hn⟩]
        exact congrArg Except.ok (if_pos hn)
      · rw [if_neg fun h : AllSigned _ _ _ => hn h.2.2]
        exact congrArg Except.ok (if_neg hn)
    · rw [if_pos hxs, if_neg hys, if_neg fun h : AllSigned _ _ _ => hys h.2.1]
  · rw [if_neg hxs, if_neg fun h : AllSigned _ _ _ => hxs h.1]

theorem arithmetic_of_countsAs (hcurrent : CountsAs current x) (hy : Fits y) :
    arithmetic op path onInts onDoubles (integer y hy) current =
      .ok (computed onDoubles x y (onInts x y)) := by
  have hzero : Value.ofInt 0 = integer 0 (by decide) :=
    Value.ofInt_of_fits (by decide)
  have hmissing : arithmetic op path onInts onDoubles (integer y hy)
      (some (integer 0 (by decide))) =
        .ok (computed onDoubles 0 y (onInts 0 y)) :=
    arithmetic_integer (by decide) hy
  rw [← hzero] at hmissing
  cases hcurrent with
  | missing => exact hmissing
  | null => exact hmissing
  | integer n fits => exact arithmetic_integer fits hy

/-- What an operator of arithmetic writes, whether it can be written or not. -/
theorem apply_integers (hop : Computes op onInts onDoubles)
    (hdoc : doc.isObject = true) (hpath : Path.parse path = .ok field)
    (hcurrent : CountsAs (field.get doc) x) (hy : Fits y) :
    apply now (ofOperator op [(path, integer y hy)]) doc =
      field.set (computed onDoubles x y (onInts x y)) doc := by
  have hnew : newValue now op path (integer y hy) (field.get doc) =
      .ok (some (computed onDoubles x y (onInts x y))) := by
    have harithmetic :
        arithmetic op path onInts onDoubles (integer y hy) (field.get doc) =
        .ok (computed onDoubles x y (onInts x y)) :=
      arithmetic_of_countsAs hcurrent hy
    cases hop with
    | inc => rw [newValue, harithmetic]; rfl
    | mul => rw [newValue, harithmetic]; rfl
  have hkeeps : op ≠ .unset ∧ op ≠ .rename := by
    cases hop <;> decide
  rw [apply_field hdoc, applyField_of_newValue hkeeps.1 hkeeps.2, hpath]
  show (newValue now op path (integer y hy) (field.get doc) >>= _) = _
  rw [hnew]
  rfl

/-! ## What is left of the document -/

/-- A document is written at a path and nowhere else. Where something was at the
path, every diverging path leads to what it led to; where a container had to be
made or padded, null may stand where nothing was. Objects keep the order of
their fields. -/
structure ChangesOnly (field : Path) (before after : Value) : Prop where
  elsewhere : ∀ q : Path, Diverge field.segments q.segments →
    Kept (q.get before) (q.get after)
  unpadded : field.get before ≠ none →
    ∀ q : Path, Diverge field.segments q.segments → q.get after = q.get before
  order : ∀ segments fields, ¬ Within field.segments segments →
    Path.lookup segments before = some (.object fields) →
      ∃ fields', Path.lookup segments after = some (.object fields') ∧
        Fields.keys fields <+: Fields.keys fields'

theorem changesOnly_of_set (h : field.set new doc = .ok doc') :
    ChangesOnly field doc doc' := by
  have hassign := Path.set_eq_ok_iff.mp h
  refine ⟨fun q hq => Path.kept_of_diverge hassign hq, ?_, ?_⟩
  · intro hsome q hq
    obtain ⟨part, hpart⟩ := Option.ne_none_iff_exists'.mp hsome
    exact Path.lookup_of_diverge hpart hassign hq
  · intro segments fields houtside hbefore
    exact Path.keys_of_assign hassign houtside hbefore

/-- Where an integer is, only the same integer leaves the document as it is. -/
theorem set_eq_self_iff (hget : field.get doc = some (integer x hx)) :
    field.set new doc = .ok doc ↔ new = integer x hx := by
  constructor
  · intro hset
    have hnew : field.get doc = some new :=
      Path.lookup_of_assign (Path.set_eq_ok_iff.mp hset)
    exact Option.some.inj (hnew.symm.trans hget)
  · rintro rfl
    exact Path.set_eq_ok_iff.mpr (Path.assign_of_lookup hget)

/-! ## Adding zero, and there and back -/

section Increments

variable (hdoc : doc.isObject = true)
  (hpath : Path.parse path = .ok field) {hx : Fits x}
  (hget : field.get doc = some (integer x hx))

include hdoc hpath hget

/-- Where an integer is, another one can be added. -/
theorem exists_apply_inc (now : Instant) (hd : Fits y) :
    ∃ doc', apply now (ofOperator .inc [(path, integer y hd)]) doc = .ok doc' ∧
      field.set (computed Double.add? x y (x + y)) doc = .ok doc' := by
  obtain ⟨doc', hassign⟩ :=
    Path.exists_assign_of_lookup hget (computed Double.add? x y (x + y))
  have hset := Path.set_eq_ok_iff.mpr hassign
  exact ⟨doc', (apply_integers .inc hdoc hpath (countsAs_of_get hget) hd).trans
    hset, hset⟩

theorem apply_inc_zero_iff :
    apply now (ofOperator .inc [(path, integer 0 (by decide))]) doc = .ok doc ↔
      FitsSigned x := by
  have hzero : ∀ hn : Fits (x + 0), integer (x + 0) hn = integer x hx := by
    rw [Int.add_zero]
    exact fun _ => rfl
  rw [apply_integers .inc hdoc hpath (countsAs_of_get hget),
    set_eq_self_iff hget, ← hzero (by omega), computed_eq_integer_iff,
    Int.add_zero]
  constructor
  · rintro (hsigned | ⟨hsmall, -⟩)
    · exact hsigned.1
    · rw [Number.wholeLimit] at hsmall
      constructor <;> omega
  · exact fun hxs => .inl ⟨hxs, by decide, hxs⟩

theorem apply_inc_back {later : Instant} (hd : Fits y) (hback : Fits (-y))
    (hthere : AllSigned x y (x + y)) (hneg : FitsSigned (-y)) :
    ∃ doc', apply now (ofOperator .inc [(path, integer y hd)]) doc = .ok doc' ∧
      apply later (ofOperator .inc [(path, integer (-y) hback)]) doc' =
        .ok doc := by
  obtain ⟨doc', happly, hset⟩ := exists_apply_inc hdoc hpath hget now hd
  have hassign := Path.set_eq_ok_iff.mp hset
  have hfits : Fits (x + y) := by
    obtain ⟨-, -, hsum⟩ := hthere
    constructor <;> omega
  have hget' : field.get doc' = some (integer (x + y) hfits) := by
    rw [← (computed_eq_integer_iff hfits).mpr (.inl hthere)]
    exact Path.lookup_of_assign hassign
  have hresult : computed Double.add? (x + y) (-y) (x + y + -y) =
      integer x hx := by
    have hsame : x + y + -y = x := Int.add_neg_cancel_right x y
    rw [hsame]
    exact (computed_eq_integer_iff hx).mpr (.inl ⟨hthere.2.2, hneg, hthere.1⟩)
  refine ⟨doc', happly, ?_⟩
  rw [apply_integers .inc (Path.isObject_set hdoc hset) hpath
    (countsAs_of_get hget'), hresult, Path.set, Path.assign_assign _ hassign,
      Path.assign_of_lookup hget]

end Increments

/-! ## The law -/

/-- In an object, an operator of arithmetic on an integer, or on what counts as
zero, changes nothing but the field at its path, if that can be written. What it
stores is the exact integer if both integers and the result are in the signed
range; otherwise it is only if the nearest doubles happen to give it. So adding
zero leaves the integers in the signed range as they are and no others, and
there what was added can be taken away again. -/
theorem integers_kept (now : Instant) (hdoc : doc.isObject = true)
    (hpath : Path.parse path = .ok field) :
    (∀ op onInts onDoubles x y (hy : Fits y) (hn : Fits (onInts x y)),
      Computes op onInts onDoubles → CountsAs (field.get doc) x →
      (∃ written, field.set .null doc = .ok written) →
        ∃ doc', apply now (ofOperator op [(path, integer y hy)]) doc =
          .ok doc' ∧
          ChangesOnly field doc doc' ∧
          (field.get doc' = some (integer (onInts x y) hn) ↔
            AllSigned x y (onInts x y) ∨
              ByDoubles onDoubles x y (onInts x y))) ∧
    ∀ x (hx : Fits x), field.get doc = some (integer x hx) →
      (apply now (ofOperator .inc [(path, integer 0 (by decide))]) doc =
        .ok doc ↔ FitsSigned x) ∧
      ∀ later d (hd : Fits d) (hback : Fits (-d)), AllSigned x d (x + d) →
        FitsSigned (-d) →
        ∃ doc', apply now (ofOperator .inc [(path, integer d hd)]) doc =
          .ok doc' ∧
          apply later (ofOperator .inc [(path, integer (-d) hback)]) doc' =
            .ok doc := by
  refine ⟨?_, ?_⟩
  · intro op onInts onDoubles x y hy hn hop hcurrent hwritable
    obtain ⟨doc', hset⟩ :
        ∃ doc', field.set (computed onDoubles x y (onInts x y)) doc =
          .ok doc' := by
      rw [Path.exists_set_eq_ok_iff] at hwritable ⊢
      rwa [Path.outcome_assign field.segments _ .null doc]
    have hget : field.get doc' = some (computed onDoubles x y (onInts x y)) :=
      Path.lookup_of_assign (Path.set_eq_ok_iff.mp hset)
    refine ⟨doc', (apply_integers hop hdoc hpath hcurrent hy).trans hset,
      changesOnly_of_set hset, ?_⟩
    rw [hget, Option.some.injEq, computed_eq_integer_iff]
  · intro x hx hget
    exact ⟨apply_inc_zero_iff hdoc hpath hget,
      fun later d hd hback hthere hneg =>
      apply_inc_back hdoc hpath hget hd hback hthere hneg⟩

/-- A document with an integer beyond the signed range and one within. -/
def counters : Value :=
  .object [("all", .ofInt 0x8000000000000000),
    ("views", .object [("today", .ofInt 40)])]

/-- To the small integer two can be added and taken away again; the other one
does not even survive zero. -/
theorem integers_kept_counters :
    (∃ doc',
        apply someTime (ofOperator .inc
          [("views.today", integer 2 (by decide))]) counters =
        .ok doc' ∧
      ChangesOnly ⟨[.key "views", .key "today"], List.cons_ne_nil _ _⟩
        counters doc' ∧
      Path.get ⟨[.key "views", .key "today"], List.cons_ne_nil _ _⟩ doc' =
        some (integer 42 (by decide))) ∧
    (∃ doc',
        apply someTime (ofOperator .inc
          [("views.today", integer 2 (by decide))]) counters =
        .ok doc' ∧
      apply someTime (ofOperator .inc
          [("views.today", integer (-2) (by decide))]) doc' =
        .ok counters) ∧
    apply someTime (ofOperator .inc [("all", integer 0 (by decide))]) counters ≠
      .ok counters := by
  have htoday : Path.parse "views.today" =
      .ok ⟨[.key "views", .key "today"], List.cons_ne_nil _ _⟩ := by
    decide +kernel
  have hall : Path.parse "all" = .ok ⟨[.key "all"], List.cons_ne_nil _ _⟩ := by
    decide +kernel
  have hsigned : AllSigned 40 2 (40 + 2) := by decide
  have hobject : counters.isObject = true := rfl
  obtain ⟨hstored, hback⟩ := integers_kept someTime hobject htoday
  obtain ⟨doc', happly, honly, hexact⟩ :=
    hstored .inc _ _ 40 2 (by decide) (by decide) .inc
    (.integer 40 (by decide)) ⟨_, rfl⟩
  obtain ⟨-, hlost⟩ := integers_kept someTime hobject hall
  obtain ⟨hzero, -⟩ := hlost 0x8000000000000000 (by decide) rfl
  refine ⟨⟨doc', happly, honly, hexact.mpr (.inl hsigned)⟩, ?_, ?_⟩
  · obtain ⟨-, hthere⟩ := hback 40 (by decide) rfl
    exact hthere someTime 2 (by decide) (by decide) hsigned (by decide)
  · rw [Ne, hzero]
    decide

end DocumentStore.Update
