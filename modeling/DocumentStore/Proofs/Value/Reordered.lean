import DocumentStore.Path.Access
import DocumentStore.Proofs.Value.WellFormed
import DocumentStore.Value.Kind
import DocumentStore.Value.Order
import Mathlib.Data.List.Forall2

/-!
# Values with their fields in another order

Two values are `Reordered` if nothing but the order of fields, at any depth,
tells them apart. Objects are maps: a key that stands twice in one would make
the order count, so the relation holds of well-formed values only, and of every
well-formed value with itself.

What a value is asked for does not see the order: the value under a key or at a
path is the same up to order, and whether it is a date or a pattern, what it is
alike to, how it compares, whether it is true and of which kind it is, is the
same.
-/

namespace DocumentStore.Value

inductive Reordered : Value → Value → Prop
  | null : Reordered .null .null
  | bool (b : Bool) : Reordered (.bool b) (.bool b)
  | number (n : Number) : Reordered (.number n) (.number n)
  | string (s : String) : Reordered (.string s) (.string s)
  | array {xs ys : List Value} (hlength : xs.length = ys.length)
      (hitems : ∀ (i : Nat) (x y : Value), xs[i]? = some x → ys[i]? = some y →
        Reordered x y) :
      Reordered (.array xs) (.array ys)
  | object {xs ys : List (String × Value)} (hnodup : (Fields.keys xs).Nodup)
      (hkeys : (Fields.keys xs).Perm (Fields.keys ys))
      (hfields : ∀ (key : String) (x y : Value), Fields.get? key xs = some x →
        Fields.get? key ys = some y → Reordered x y) :
      Reordered (.object xs) (.object ys)

variable {v w v' w' : Value} {xs ys : List Value}
  {fields fields' : List (String × Value)}

/-! ## Parts -/

theorem rel_cases {α β : Type} {R : α → β → Prop} {found : Option α}
    {found' : Option β} (h : Option.Rel R found found') :
    (found = none ∧ found' = none) ∨ ∃ x y, found = some x ∧ found' = some y ∧
      R x y := by
  cases h with
  | none => exact .inl ⟨rfl, rfl⟩
  | some hxy => exact .inr ⟨_, _, rfl, rfl, hxy⟩

theorem forall₂_of_getElem? {R : Value → Value → Prop}
    (hlength : xs.length = ys.length)
    (h : ∀ (i : Nat) (x y : Value), xs[i]? = some x → ys[i]? = some y → R x y) :
    List.Forall₂ R xs ys := by
  induction xs generalizing ys with
  | nil =>
      rw [List.length_nil] at hlength
      rw [List.eq_nil_of_length_eq_zero hlength.symm]
      exact .nil
  | cons x xs ih =>
      cases ys with
      | nil => cases hlength
      | cons y ys =>
          exact .cons (h 0 x y rfl rfl)
            (ih (Nat.succ.inj hlength) fun i => h (i + 1))

theorem getElem?_of_forall₂ {R : Value → Value → Prop}
    (h : List.Forall₂ R xs ys) (i : Nat) :
    Option.Rel R xs[i]? ys[i]? := by
  induction h generalizing i with
  | nil => exact .none
  | cons hxy _ ih =>
      cases i with
      | zero => exact .some hxy
      | succ i => exact ih i

/-- What two lists of fields with the same keys have under a key. -/
theorem get?_of_perm {R : Value → Value → Prop}
    (hkeys : (Fields.keys fields).Perm (Fields.keys fields'))
    (h : ∀ (key : String) (x y : Value), Fields.get? key fields = some x →
      Fields.get? key fields' = some y → R x y) (key : String) :
    Option.Rel R (Fields.get? key fields) (Fields.get? key fields') := by
  cases hx : Fields.get? key fields with
  | none =>
      have hmem := Fields.get?_eq_none_iff.mp hx
      rw [hkeys.mem_iff] at hmem
      rw [Fields.get?_eq_none_iff.mpr hmem]
      exact .none
  | some x =>
      cases hy : Fields.get? key fields' with
      | none =>
          have hmem := Fields.get?_eq_none_iff.mp hy
          rw [← hkeys.mem_iff, ← Fields.get?_eq_none_iff, hx] at hmem
          cases hmem
      | some y => exact .some (h key x y hx hy)

theorem Reordered.keys (h : Reordered (.object fields) (.object fields')) :
    (Fields.keys fields).Perm (Fields.keys fields') := by
  cases h with
  | object _ hkeys _ => exact hkeys

theorem Reordered.get? (h : Reordered (.object fields) (.object fields'))
    (key : String) :
    Option.Rel Reordered (Fields.get? key fields)
      (Fields.get? key fields') := by
  cases h with
  | object _ hkeys hfields => exact get?_of_perm hkeys hfields key

theorem Reordered.field? (h : Reordered v w) (key : String) :
    Option.Rel Reordered (v.field? key) (w.field? key) := by
  cases h with
  | object hnodup hkeys hfields => exact get?_of_perm hkeys hfields key
  | null => exact .none
  | bool b => exact .none
  | number n => exact .none
  | string s => exact .none
  | array hlength hitems => exact .none

theorem Reordered.exists_right {key : String}
    (h : Reordered (.object fields) (.object fields'))
    (hmem : (key, v) ∈ fields) :
    ∃ w, Fields.get? key fields = some v ∧
      Fields.get? key fields' = some w := by
  cases h with
  | object hnodup hkeys hfields =>
      have hget := (Fields.get?_eq_some_iff hnodup).mpr hmem
      rcases rel_cases (get?_of_perm hkeys hfields key) with
        ⟨hx, -⟩ | ⟨x, w, hx, hw, -⟩
      · rw [hget] at hx
        cases hx
      · exact ⟨w, hget, hw⟩

theorem Reordered.exists_left {key : String}
    (h : Reordered (.object fields) (.object fields'))
    (hmem : (key, w) ∈ fields') :
    ∃ v, Fields.get? key fields = some v ∧
      Fields.get? key fields' = some w := by
  cases h with
  | object hnodup hkeys hfields =>
      have hget :=
        (Fields.get?_eq_some_iff (hkeys.nodup_iff.mp hnodup)).mpr hmem
      rcases rel_cases (get?_of_perm hkeys hfields key) with
        ⟨-, hx⟩ | ⟨v, x, hv, -, -⟩
      · rw [hget] at hx
        cases hx
      · exact ⟨v, hv, hget⟩

theorem Reordered.length_fields
    (h : Reordered (.object fields) (.object fields')) :
    fields.length = fields'.length := by
  have hlength := h.keys.length_eq
  rwa [Fields.keys, Fields.keys, List.length_map, List.length_map] at hlength

/-! ## Which values are reordered -/

mutual

theorem Reordered.refl : (v : Value) → v.WellFormed → Reordered v v
  | .null, _ => .null
  | .bool b, _ => .bool b
  | .number n, _ => .number n
  | .string s, _ => .string s
  | .array items, h => by
      have hitems := reordered_items items h
      refine .array rfl fun i x y hx hy => ?_
      rw [hx] at hy
      cases hy
      exact hitems x (List.mem_of_getElem? hx)
  | .object fields, h => by
      have hfields := reordered_fields fields h.2
      refine .object h.1 (.refl _) fun key x y hx hy => ?_
      rw [hx] at hy
      cases hy
      exact hfields (key, x) (Fields.mem_of_get? hx)

theorem reordered_items :
    (items : List Value) → ItemsWellFormed items → ∀ v ∈ items, Reordered v v
  | [], _ => nofun
  | v :: rest, h =>
      List.forall_mem_cons.mpr ⟨Reordered.refl v h.1, reordered_items rest h.2⟩

theorem reordered_fields :
    (fields : List (String × Value)) → FieldsWellFormed fields →
    ∀ entry ∈ fields, Reordered entry.2 entry.2
  | [], _ => nofun
  | (_, v) :: rest, h =>
      List.forall_mem_cons.mpr ⟨Reordered.refl v h.1, reordered_fields rest h.2⟩

end

/-- A permutation of the fields of an object. -/
theorem reordered_of_perm (h : (Value.object fields).WellFormed)
    (hperm : fields.Perm fields') :
    Reordered (.object fields) (.object fields') := by
  have hkeys : (Fields.keys fields).Perm (Fields.keys fields') := hperm.map _
  refine .object h.1 hkeys fun key x y hx hy => ?_
  have hmem := hperm.mem_iff.mpr (Fields.mem_of_get? hy)
  rw [← Fields.get?_eq_some_iff h.1, hx] at hmem
  cases hmem
  exact Reordered.refl x (h.get? hx)

/-! ## Kinds of values -/

theorem Reordered.isArray_eq (h : Reordered v w) : v.isArray = w.isArray := by
  cases h <;> rfl

theorem Reordered.isObject_eq (h : Reordered v w) :
    v.isObject = w.isObject := by
  cases h <;> rfl

theorem Reordered.isNull_eq (h : Reordered v w) : v.isNull = w.isNull := by
  cases h <;> rfl

theorem Reordered.asString?_eq (h : Reordered v w) :
    v.asString? = w.asString? := by
  cases h <;> rfl

theorem Reordered.asBool?_eq (h : Reordered v w) : v.asBool? = w.asBool? := by
  cases h <;> rfl

theorem Reordered.asNumber?_eq (h : Reordered v w) :
    v.asNumber? = w.asNumber? := by
  cases h <;> rfl

theorem Reordered.instant?_eq (h : Reordered v w) :
    v.instant? = w.instant? := by
  cases h <;> rfl

theorem Reordered.singleton (key : String) (h : Reordered v w) :
    Reordered (.object [(key, v)]) (.object [(key, w)]) := by
  refine .object (by simp [Fields.keys]) (.refl _) fun other x y hx hy => ?_
  cases List.mem_singleton.mp (Fields.mem_of_get? hx)
  cases List.mem_singleton.mp (Fields.mem_of_get? hy)
  exact h

/-- An object with one field has one order only. -/
theorem Reordered.single {key : String}
    (h : Reordered (.object [(key, v)]) (.object fields)) :
    ∃ w, fields = [(key, w)] ∧ Reordered v w := by
  have hlength := h.length_fields
  match fields, hlength with
  | [(other, w)], _ =>
      have hkey : key = other :=
        List.perm_singleton.mp h.keys |> List.singleton_inj.mp
      subst hkey
      have hget := h.get? key
      simp only [Fields.get?, if_pos] at hget
      cases hget with
      | some hvw => exact ⟨w, rfl, hvw⟩

theorem asDate?_of_length (h : fields.length ≠ 1) :
    asDate? (.object fields) = none := by
  match fields, h with
  | [], _ => rfl
  | _ :: _ :: _, _ => rfl

theorem Reordered.asDate?_eq (h : Reordered v w) : v.asDate? = w.asDate? := by
  cases h with
  | @object fields fields' hnodup hkeys hfields =>
      have hobject : Reordered (.object fields) (.object fields') :=
        .object hnodup hkeys hfields
      by_cases hone : fields.length = 1
      · obtain ⟨⟨key, x⟩, rfl⟩ := List.length_eq_one_iff.mp hone
        obtain ⟨y, rfl, hxy⟩ := hobject.single
        rw [asDate?, asDate?, hxy.instant?_eq]
      · have hother : fields'.length ≠ 1 := hobject.length_fields ▸ hone
        rw [asDate?_of_length hone, asDate?_of_length hother]
  | null => rfl
  | bool b => rfl
  | number n => rfl
  | string s => rfl
  | array hlength hitems => rfl

theorem Reordered.isDate_eq (h : Reordered v w) : v.isDate = w.isDate :=
  congrArg Option.isSome h.asDate?_eq

theorem Reordered.isPlainObject_eq (h : Reordered v w) :
    v.isPlainObject = w.isPlainObject := by
  rw [isPlainObject, isPlainObject, h.isObject_eq, h.isDate_eq]

/-- A string that may be missing is the same. -/
theorem asString?_of_rel {found found' : Option Value}
    (h : Option.Rel Reordered found found') :
    found.bind asString? = found'.bind asString? := by
  cases h with
  | some h => exact h.asString?_eq
  | none => rfl

theorem isPattern_object (fields : List (String × Value)) :
    isPattern (.object fields) =
    (((Fields.get? patternKey fields).bind asString?).isSome &&
      (Fields.keys fields).all fun key =>
        key == patternKey || key == optionsKey) := by
  rw [isPattern, Fields.keys, List.all_map]
  rfl

theorem Reordered.isPattern_eq (h : Reordered v w) :
    v.isPattern = w.isPattern := by
  cases h with
  | @object fields fields' hnodup hkeys hfields =>
      have hget := get?_of_perm hkeys hfields patternKey
      rw [isPattern_object, isPattern_object, asString?_of_rel hget,
        hkeys.all_eq]
  | null => rfl
  | bool b => rfl
  | number n => rfl
  | string s => rfl
  | array hlength hitems => rfl

theorem Reordered.isTruthy_eq {found found' : Option Value}
    (h : Option.Rel Reordered found found') :
    isTruthy found = isTruthy found' := by
  cases h with
  | some h => cases h <;> rfl
  | none => rfl

theorem Reordered.primitiveKind_eq (h : Reordered v w) :
    v.primitiveKind = w.primitiveKind := by
  cases h <;> rfl

theorem Reordered.hasStructure_eq (h : Reordered v w) (kind : String) :
    v.hasStructure kind = w.hasStructure kind := by
  simp only [hasStructure, h.isArray_eq, h.isDate_eq, h.isPattern_eq,
    h.isNull_eq, h.isObject_eq, h.asNumber?_eq, h.asBool?_eq]

theorem isOfKind_of_rel {found found' : Option Value}
    (h : Option.Rel Reordered found found') (kind : String) :
    isOfKind kind found = isOfKind kind found' := by
  cases h with
  | some h => rw [isOfKind, isOfKind, h.primitiveKind_eq, h.hasStructure_eq]
  | none => rfl

/-! ## Comparing -/

theorem Reordered.compare?_eq (hv : Reordered v v') (hw : Reordered w w') :
    compare? v w = compare? v' w' := by
  have hdate := hv.asDate?_eq
  have hother := hw.asDate?_eq
  cases hv with
  | object hnodup hkeys hfields =>
      cases hw with
      | object _ _ _ => simp only [compare?, hdate, hother]
      | null => rfl
      | bool b => rfl
      | number n => rfl
      | string s => rfl
      | array _ _ => rfl
  | null => cases hw <;> rfl
  | bool b => cases hw <;> rfl
  | number n => cases hw <;> rfl
  | string s => cases hw <;> rfl
  | array hlength hitems => cases hw <;> rfl

theorem alikeItems_congr
    (h : List.Forall₂ (fun x y => ∀ w w', Reordered w w' →
      alike x w = alike y w') xs ys)
    {others others' : List Value}
    (hothers : List.Forall₂ Reordered others others') :
    alikeItems xs others = alikeItems ys others' := by
  induction h generalizing others others' with
  | nil =>
      cases hothers with
      | nil => rfl
      | cons _ _ => rfl
  | cons hxy _ ih =>
      cases hothers with
      | nil => rfl
      | cons hw hrest => rw [alikeItems, alikeItems, hxy _ _ hw, ih hrest]

theorem alikeFields_iff {others : List (String × Value)}
    (h : (Fields.keys fields).Nodup) :
    alikeFields fields others = true ↔ ∀ key x,
      Fields.get? key fields = some x →
      ∃ y, Fields.get? key others = some y ∧ alike x y = true := by
  have hmem : alikeFields fields others = true ↔ ∀ entry ∈ fields,
      ∃ y, Fields.get? entry.1 others = some y ∧ alike entry.2 y = true := by
    clear h
    induction fields with
    | nil => simp [alikeFields]
    | cons entry rest ih =>
        obtain ⟨key, x⟩ := entry
        rw [alikeFields, Bool.and_eq_true, ih, List.forall_mem_cons]
        refine and_congr_left fun _ => ?_
        cases Fields.get? key others <;> simp
  rw [hmem]
  constructor
  · intro hall key x hget
    exact hall (key, x) (Fields.mem_of_get? hget)
  · intro hall entry hentry
    exact hall entry.1 entry.2 ((Fields.get?_eq_some_iff h).mpr hentry)

/-- Lookups that agree up to a relation that respects being alike. -/
theorem alikeFields_of_get? {others others' : List (String × Value)}
    (hnodup : (Fields.keys fields).Nodup)
    (hnodup' : (Fields.keys fields').Nodup)
    (h : ∀ key, Option.Rel (fun x y => ∀ w w', Reordered w w' →
      alike x w = alike y w')
      (Fields.get? key fields) (Fields.get? key fields'))
    (hothers : Reordered (.object others) (.object others')) :
    alikeFields fields others = alikeFields fields' others' := by
  rw [Bool.eq_iff_iff, alikeFields_iff hnodup, alikeFields_iff hnodup']
  refine forall_congr' fun key => ?_
  rcases rel_cases (h key) with ⟨hx, hy⟩ | ⟨x, y, hx, hy, hxy⟩
  · simp [hx, hy]
  · rcases rel_cases (hothers.get? key) with ⟨hw, hw'⟩ | ⟨w, w', hw, hw', hww⟩
    · simp [hw, hw', hx, hy]
    · simp [hw, hw', hx, hy, hxy w w' hww]

theorem Reordered.alike_eq (hv : Reordered v v') (hw : Reordered w w') :
    alike v w = alike v' w' := by
  induction hv generalizing w w' with
  | @object fields fields' hnodup hkeys hfields ih =>
      have hobject : Reordered (.object fields) (.object fields') :=
        .object hnodup hkeys hfields
      cases hw with
      | @object others others' hnodupOther hkeysOther hothers =>
          have hother : Reordered (.object others) (.object others') :=
            .object hnodupOther hkeysOther hothers
          have hinner := alikeFields_of_get? hnodup (hkeys.nodup_iff.mp hnodup)
            (get?_of_perm hkeys fun key x y hx hy w w' hw =>
              ih key x y hx hy hw) hother
          rw [alike, alike, hobject.asDate?_eq, hother.asDate?_eq,
            hobject.length_fields, hother.length_fields, hinner]
      | null => simp only [alike]
      | bool b => simp only [alike]
      | number n => simp only [alike]
      | string s => simp only [alike]
      | array hlength hitems => simp only [alike]
  | array hlength hitems ih =>
      cases hw with
      | array hlengthOther hothers =>
          have hpairs :=
            forall₂_of_getElem? (R := fun x y => ∀ w w', Reordered w w' →
            alike x w = alike y w') hlength fun i x y hx hy w w' hw =>
            ih i x y hx hy hw
          rw [alike, alike,
            alikeItems_congr hpairs (forall₂_of_getElem? hlengthOther hothers)]
      | null => simp only [alike]
      | bool b => simp only [alike]
      | number n => simp only [alike]
      | string s => simp only [alike]
      | object hnodup hkeys hfields => simp only [alike]
  | null => cases hw <;> simp only [alike]
  | bool b => cases hw <;> simp only [alike]
  | number n => cases hw <;> simp only [alike]
  | string s => cases hw <;> simp only [alike]

theorem Reordered.isAmong_eq (h : Reordered v w)
    (hitems : List.Forall₂ Reordered xs ys) :
    v.isAmong xs = w.isAmong ys := by
  induction hitems with
  | nil => rfl
  | cons hxy _ ih =>
      rw [isAmong] at ih
      rw [isAmong, isAmong, List.any_cons, List.any_cons, hxy.alike_eq h, ih]
      rfl

end DocumentStore.Value

/-! ## At a path -/

namespace DocumentStore.Path

open DocumentStore.Value (Reordered)

variable {v w : Value}

theorem child?_of_reordered (h : Reordered v w) (segment : Segment) :
    Option.Rel Reordered (child? segment v) (child? segment w) := by
  cases h with
  | object hnodup hkeys hfields =>
      exact Value.get?_of_perm hkeys hfields segment.text
  | array hlength hitems =>
      cases segment with
      | key name => exact .none
      | index i =>
          exact Value.getElem?_of_forall₂
            (Value.forall₂_of_getElem? hlength hitems) i
  | null => exact .none
  | bool b => exact .none
  | number n => exact .none
  | string s => exact .none

theorem lookup_of_reordered (segments : List Segment) (h : Reordered v w) :
    Option.Rel Reordered (lookup segments v) (lookup segments w) := by
  induction segments generalizing v w with
  | nil => exact .some h
  | cons segment rest ih =>
      rw [lookup, lookup]
      rcases Value.rel_cases (child?_of_reordered h segment) with
        ⟨hv, hw⟩ | ⟨x, y, hv, hw, hxy⟩
      · rw [hv, hw]
        exact .none
      · rw [hv, hw]
        exact ih hxy

end DocumentStore.Path
