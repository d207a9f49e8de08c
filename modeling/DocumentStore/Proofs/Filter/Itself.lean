import DocumentStore.Proofs.Filter.FieldOrder
import DocumentStore.Proofs.Filter.Scalar
import DocumentStore.Proofs.Path.Single
import DocumentStore.Proofs.Value.Alike

/-!
# What a value is asked for by its own parts

A filter is fulfilled if its fields are fulfilled one by one
(`isMatch_of_fields`), and a field is if what is at its path fulfils the operand
(`isMatch_of_get`). So a value fulfils itself as a clause, part by part, as long
as its keys name its own fields: a key with a dot or a bracket would be a path
of several segments, an empty one none, and one with a dollar sign an operator.
That a key may be a number does no harm, since an index is a field of an object
by its text.
-/

namespace DocumentStore.Filter

variable {siblings fields : List (String × Value)} {key : String}
  {operand doc v : Value}

/-! ## Field by field -/

/-- A field at a path asks the same among other fields as alone. -/
theorem condition_path (h : Fields.isOperator key = false)
    (found : Option Value) :
    condition siblings key operand (holds operand)
      (testsOfMembers operand) found =
      holds (.object [(key, operand)]) found := by
  have hno : ¬ Fields.isOperator key = true := by
    rw [h]
    exact Bool.false_ne_true
  rw [holds_single (ne_dateKey h), condition, if_neg hno, condition, if_neg hno]

theorem holdsFields_of_conditions {found : Option Value}
    (h : ∀ entry ∈ fields, condition siblings entry.1 entry.2 (holds entry.2)
      (testsOfMembers entry.2) found = .ok true) :
      holdsFields siblings fields found = .ok true := by
  induction fields with
  | nil => rfl
  | cons entry rest ih =>
      rw [holdsFields, both, h entry List.mem_cons_self]
      exact ih fun other hother => h other (List.mem_cons_of_mem _ hother)

theorem isMatch_of_fields
    (hkeys : ∀ entry ∈ fields, Fields.isOperator entry.1 = false)
    (h : ∀ entry ∈ fields, isMatch (.object [entry]) doc = .ok true) :
    isMatch (.object fields) doc = .ok true := by
  have hdate : Value.isDate (.object fields) = false := by
    rw [Value.isDate, Option.isSome_eq_false_iff, Option.isNone_iff_eq_none,
      Option.eq_none_iff_forall_ne_some]
    intro t ht
    obtain ⟨w, hw, -⟩ := Value.asDate?_eq_some_iff.mp ht
    cases hw
    exact ne_dateKey (hkeys _ List.mem_cons_self) rfl
  rw [isMatch, holds, hdate, if_neg Bool.false_ne_true]
  exact holdsFields_of_conditions fun entry hentry =>
    (condition_path (hkeys entry hentry) (some doc)).trans (h entry hentry)

/-! ## A value and itself -/

theorem holds_self_of_isScalar (hv : v.WellFormed)
    (hscalar : v.isScalar = true) :
    holds v (some v) = .ok true := by
  rw [holds_scalar hscalar,
    Value.isAmongOwn_of_not_array (Value.isArray_of_isScalar hscalar),
    Value.alike_self hv]

/-- The operand of a path is not asked in the same way as a clause, but of
itself it is answered in the same way. -/
theorem asks_self (hv : v.WellFormed) (hself : holds v (some v) = .ok true) :
    asks v (some v) = .ok true := by
  rw [asks]
  split
  · exact hself
  · next hscalar =>
      have harray : v.isArray = false := by
        rw [Bool.not_eq_true, Bool.or_eq_false_iff] at hscalar
        exact hscalar.1
      rw [eq_test, Value.isWithin_of_not_array harray, Value.alike_self hv]

/-- A document fulfils a field that asks for what it has. -/
theorem isMatch_of_get {path : Path} (hkey : Fields.isOperator key = false)
    (hpath : Path.parse key = .ok path) (hv : v.WellFormed)
    (hself : holds v (some v) = .ok true) (hget : path.get doc = some v) :
    isMatch (.object [(key, v)]) doc = .ok true := by
  rw [isMatch, holds_path hkey, childAt, hpath]
  show asks v (path.get doc) = .ok true
  rw [hget, asks_self hv hself]

/-- A key that names a field of an object, and nothing else, also in a
filter. -/
structure IsPlainKey (key : String) : Prop where
  ne_empty : key ≠ ""
  not_operator : Fields.isOperator key = false
  isSingle : Path.IsSingle key

instance (key : String) : Decidable (IsPlainKey key) :=
  decidable_of_iff (key ≠ "" ∧ Fields.isOperator key = false ∧
      Path.IsSingle key)
    ⟨fun ⟨hne, hop, hsingle⟩ => ⟨hne, hop, hsingle⟩,
      fun h => ⟨h.ne_empty, h.not_operator, h.isSingle⟩⟩

/-- All objects in a value have plain keys only, but for dates. -/
inductive PlainKeyed : Value → Prop
  | null : PlainKeyed .null
  | bool (b : Bool) : PlainKeyed (.bool b)
  | number (n : Number) : PlainKeyed (.number n)
  | string (s : String) : PlainKeyed (.string s)
  | array {items : List Value} (hitems : ∀ v ∈ items, PlainKeyed v) :
      PlainKeyed (.array items)
  | date {fields : List (String × Value)}
      (hdate : Value.isDate (.object fields) = true) :
      PlainKeyed (.object fields)
  | object {fields : List (String × Value)}
      (hkeys : ∀ entry ∈ fields, IsPlainKey entry.1)
      (hvalues : ∀ entry ∈ fields, PlainKeyed entry.2) :
      PlainKeyed (.object fields)

theorem isMatch_of_get? (hkey : IsPlainKey key) (hv : v.WellFormed)
    (hself : holds v (some v) = .ok true)
    (hget : Fields.get? key fields = some v) :
    isMatch (.object [(key, v)]) (.object fields) = .ok true := by
  have hne : key.toList ≠ [] :=
    fun h => hkey.ne_empty (String.toList_eq_nil_iff.mp h)
  obtain ⟨path, hpath⟩ := Path.exists_parse_of_isSingle hkey.isSingle hne
  refine isMatch_of_get hkey.not_operator hpath hv hself ?_
  rw [Path.get_of_isSingle hkey.isSingle hpath, hget]

theorem pairwise_self {items : List Value}
    (h : ∀ v ∈ items, holds v (some v) = .ok true) :
    pairwise (items.map holds) items = .ok true := by
  induction items with
  | nil => rfl
  | cons v rest ih =>
      obtain ⟨hfirst, hrest⟩ := List.forall_mem_cons.mp h
      rw [List.map_cons, pairwise, hfirst]
      exact ih hrest

theorem holds_self (hv : v.WellFormed) (h : PlainKeyed v) :
    holds v (some v) = .ok true := by
  induction h with
  | null => exact holds_self_of_isScalar hv rfl
  | bool b => exact holds_self_of_isScalar hv rfl
  | number n => exact holds_self_of_isScalar hv rfl
  | string s => exact holds_self_of_isScalar hv rfl
  | array hitems ih =>
      have hwf := Value.wellFormed_array_iff.mp hv
      rw [holds, testsOfItems_eq, elementwise, List.length_map, if_pos rfl]
      exact pairwise_self fun v hmem => ih v hmem (hwf v hmem)
  | date hdate =>
      refine holds_self_of_isScalar hv ?_
      rw [Value.isScalar, Value.isPlainObject, hdate]
      rfl
  | object hkeys hvalues ih =>
      obtain ⟨hnodup, hwf⟩ := Value.wellFormed_object_iff.mp hv
      refine isMatch_of_fields (fun entry hentry =>
        (hkeys entry hentry).not_operator) ?_
      intro entry hentry
      have hv := hwf entry hentry
      exact isMatch_of_get? (hkeys entry hentry) hv (ih entry hentry hv)
        ((Fields.get?_eq_some_iff hnodup).mpr hentry)

/-- A value whose keys are plain fulfils itself as a clause, and an object that
has it in a field with a plain key, whatever else the object has, fulfils the
filter that asks for that field. -/
theorem isMatch_itself (hv : v.WellFormed) (h : PlainKeyed v) :
    isMatch v v = .ok true ∧ ∀ key fields, IsPlainKey key →
      Fields.get? key fields = some v →
      isMatch (.object [(key, v)]) (.object fields) = .ok true :=
  ⟨holds_self hv h, fun _ _ hkey hget =>
    isMatch_of_get? hkey hv (holds_self hv h) hget⟩

/-- A number, and null in a list of its own. -/
def rows : Value := .array [.ofInt 1, .array [.null]]

/-- A document with a date, a list under a key that is an index, and an object
in an object. -/
def visitor : Value :=
  .object [("at", .object [(Value.dateKey, .string "1970-01-01T00:00:00Z")]),
    ("0", rows), ("tags", .object [("é", .string "a"), ("-1", .bool false)])]

theorem isMatch_itself_visitor :
    visitor.WellFormed ∧ PlainKeyed visitor ∧
      isMatch visitor visitor = .ok true ∧
      rows.WellFormed ∧ PlainKeyed rows ∧ IsPlainKey "0" ∧
      visitor.field? "0" = some rows ∧
      isMatch (.object [("0", rows)]) visitor = .ok true := by
  have hrows : PlainKeyed rows := by
    refine .array (List.forall_mem_cons.mpr
      ⟨.number _, List.forall_mem_singleton.mpr ?_⟩)
    exact .array (List.forall_mem_singleton.mpr .null)
  have htags : PlainKeyed (.object [("é", .string "a"), ("-1", .bool false)]) :=
    .object (by decide +kernel)
      (List.forall_mem_cons.mpr ⟨.string _,
        List.forall_mem_singleton.mpr (.bool _)⟩)
  have hvisitor : PlainKeyed visitor := by
    refine .object (by decide +kernel)
      (List.forall_mem_cons.mpr ⟨.date (by decide +kernel), ?_⟩)
    exact List.forall_mem_cons.mpr ⟨hrows, List.forall_mem_singleton.mpr htags⟩
  have hwf : visitor.WellFormed := by decide +kernel
  have hwfRows : rows.WellFormed := by decide +kernel
  refine ⟨hwf, hvisitor, (isMatch_itself hwf hvisitor).1, hwfRows, hrows,
    ?_, rfl, ?_⟩
  · decide +kernel
  · exact (isMatch_itself hwfRows hrows).2 "0" _ (by decide +kernel) rfl

end DocumentStore.Filter
