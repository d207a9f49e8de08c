import DocumentStore.Proofs.Double.Rounding
import DocumentStore.Proofs.Value.Order
import DocumentStore.Proofs.Change
import DocumentStore.Proofs.Value.Reordered
import Mathlib.Data.List.Nodup
import Mathlib.Data.List.Perm.Subperm

/-!
# How far being alike is an equivalence

Being alike looks at two values in two ways. Two dates are alike if they are one
instant, however they are written; everything else is alike part by part, and so
is a date to an object that is none. The two ways do not fit together: a number
under the key of dates is a date only if it is an integer, but numbers are alike
by value. So a date in milliseconds is alike to the object with the same number
as a double, which is no date, and it is alike to its own text, which that
object is not alike to.

This is the only flaw. For objects whose fields are alike are alike, also if
both are dates (`FieldsAlike.alike`): the milliseconds that name an instant are
integers of less than 53 bits, and those are told apart as doubles. Hence being
alike is transitive unless the ends are `Torn` (`alike_trans`), and torn values
are never alike. In sorts the same two values have different ranks, and again
nothing else goes wrong: values that are alike have one place unless only one of
them is a date (`sortCompare_of_alike`).
-/

namespace DocumentStore.Value

variable {a b c v w u x y z : Value} {xs ys zs : List (String × Value)}
  {s t : Instant}

/-! ## Induction along the parts of a value -/

@[elab_as_elim]
theorem parts_induction {P : Value → Prop} (null : P .null)
    (bool : ∀ b, P (.bool b)) (number : ∀ n, P (.number n))
    (string : ∀ s, P (.string s))
    (array : ∀ items, (∀ v ∈ items, P v) → P (.array items))
    (object : ∀ fields, (∀ entry ∈ fields, P entry.2) → P (.object fields))
    (v : Value) : P v :=
  @Value.rec P (fun items => ∀ v ∈ items, P v)
    (fun fields => ∀ entry ∈ fields, P entry.2)
    (fun entry => P entry.2) null bool number string array object
    (List.forall_mem_nil _) (fun _ _ hv hrest =>
      List.forall_mem_cons.mpr ⟨hv, hrest⟩)
    (List.forall_mem_nil _) (fun _ _ hentry hrest =>
      List.forall_mem_cons.mpr ⟨hentry, hrest⟩)
    (fun _ _ hv => hv) v

/-! ## Dates -/

theorem asDate?_single (w : Value) :
    asDate? (.object [(dateKey, w)]) = w.instant? := by
  rw [asDate?, if_pos rfl]

theorem asDate?_eq_some_iff : v.asDate? = some t ↔
    ∃ w, v = .object [(dateKey, w)] ∧ w.instant? = some t := by
  refine ⟨?_, ?_⟩
  · intro h
    unfold asDate? at h
    split at h
    · next key w =>
        split at h
        · next hkey => exact ⟨w, by rw [hkey], h⟩
        · cases h
    · cases h
  · rintro ⟨w, rfl, h⟩
    rw [asDate?_single, h]

/-- What names an instant is a text or a number of milliseconds. -/
theorem instant?_cases (h : v.instant? = some t) :
    (∃ s, v = .string s) ∨
      ∃ n hn, v = .number (.int n hn) ∧ Instant.ofMillis? n = some t := by
  cases v with
  | string s => exact .inl ⟨s, rfl⟩
  | number m =>
      cases m with
      | int n hn =>
          rw [instant?, Number.asInt?] at h
          split at h
          · exact .inr ⟨n, hn, rfl, h⟩
          · cases h
      | double x => cases h
  | _ => cases h

/-- Milliseconds that name instants are told apart by their value as doubles. -/
theorem eq_of_units_eq {m n : Int} {hm : DocumentStore.Fits m}
    {hn : DocumentStore.Fits n} (hs : Instant.ofMillis? m = some s)
    (ht : Instant.ofMillis? n = some t)
    (h : (Number.int m hm).units = (Number.int n hn).units) : m = n := by
  have hunits : ∀ k hk, k.natAbs < 0x20000000000000 →
      (Number.int k hk).units = k * Double.one := by
    intro k hk hlt
    obtain ⟨x, hx, heq⟩ := Double.exists_ofInt? hlt
    rw [Number.units, Number.toDouble, hx, Option.getD_some, heq]
  rw [hunits m hm (Instant.natAbs_lt_of_ofMillis? hs),
    hunits n hn (Instant.natAbs_lt_of_ofMillis? ht)] at h
  have hone : (Double.one : Int) ≠ 0 := by decide +kernel
  exact Int.eq_of_mul_eq_mul_right hone h

/-- What names two dates is alike only if it names one instant. -/
theorem instant_eq_of_alike (hv : v.instant? = some s)
    (hw : w.instant? = some t) (h : v.alike w = true) : s = t := by
  rcases instant?_cases hv with ⟨text, rfl⟩ | ⟨m, hm, rfl, hs⟩
  · rw [string_alike_iff.mp h, hv] at hw
    exact Option.some.inj hw
  · rcases instant?_cases hw with ⟨text, rfl⟩ | ⟨n, hn, rfl, ht⟩
    · cases h
    · rw [alike, Number.alike, beq_iff_eq] at h
      cases eq_of_units_eq hs ht h
      rw [hs] at ht
      exact Option.some.inj ht

/-! ## Parts that are alike -/

theorem alike_array_iff {xs ys : List Value} :
    alike (.array xs) (.array ys) = true ↔
    xs.length = ys.length ∧
      ∀ (i : Nat) (x y : Value), xs[i]? = some x → ys[i]? = some y →
        x.alike y = true := by
  have hforall : alike (.array xs) (.array ys) = true ↔
      List.Forall₂ (fun x y => x.alike y = true) xs ys := by
    rw [alike]
    induction xs generalizing ys with
    | nil => cases ys <;> simp [alikeItems]
    | cons x xs ih =>
        cases ys with
        | nil => simp [alikeItems]
        | cons y ys => rw [alikeItems, Bool.and_eq_true, List.forall₂_cons, ih]
  rw [hforall]
  refine ⟨?_, fun h => forall₂_of_getElem? h.1 h.2⟩
  intro h
  refine ⟨h.length_eq, ?_⟩
  intro i x y hx hy
  have hrel := getElem?_of_forall₂ h i
  rw [hx, hy] at hrel
  cases hrel with
  | some hxy => exact hxy

/-- The fields of two objects have the same keys, and alike values under
them. -/
structure FieldsAlike (xs ys : List (String × Value)) : Prop where
  keys : (Fields.keys xs).Perm (Fields.keys ys)
  values : ∀ key x y, Fields.get? key xs = some x →
    Fields.get? key ys = some y →
    x.alike y = true

theorem FieldsAlike.exists_right (h : FieldsAlike xs ys) {key : String}
    (hx : Fields.get? key xs = some x) :
    ∃ y, Fields.get? key ys = some y ∧ x.alike y = true := by
  have hrel := get?_of_perm h.keys h.values key
  rw [hx] at hrel
  cases hy : Fields.get? key ys with
  | none =>
      rw [hy] at hrel
      cases hrel
  | some y => exact ⟨y, rfl, h.values key x y hx hy⟩

theorem FieldsAlike.trans (h : FieldsAlike xs ys) (h' : FieldsAlike ys zs)
    (hvalues : ∀ key x y z, Fields.get? key xs = some x →
      Fields.get? key ys = some y →
      Fields.get? key zs = some z → x.alike y = true → y.alike z = true →
        x.alike z = true) : FieldsAlike xs zs := by
  refine ⟨h.keys.trans h'.keys, ?_⟩
  intro key x z hx hz
  obtain ⟨y, hy, hxy⟩ := h.exists_right hx
  exact hvalues key x y z hx hy hz hxy (h'.values key y z hy hz)

theorem fieldsAlike_iff (hx : (Fields.keys xs).Nodup) :
    (xs.length == ys.length && alikeFields xs ys) = true ↔
      FieldsAlike xs ys := by
  rw [Bool.and_eq_true, beq_iff_eq, alikeFields_iff hx]
  refine ⟨?_, ?_⟩
  · rintro ⟨hlength, hall⟩
    have hsubset : Fields.keys xs ⊆ Fields.keys ys := by
      intro key hkey
      obtain ⟨entry, hentry, rfl⟩ := List.mem_map.mp hkey
      obtain ⟨y, hy, -⟩ := hall _ _ ((Fields.get?_eq_some_iff hx).mpr hentry)
      exact List.mem_map.mpr ⟨_, Fields.mem_of_get? hy, rfl⟩
    refine ⟨(List.subperm_of_subset hx hsubset).perm_of_length_le ?_, ?_⟩
    · simp only [Fields.keys, List.length_map, hlength, Nat.le_refl]
    · intro key x y hget hget'
      obtain ⟨z, hz, halike⟩ := hall key x hget
      rw [hz] at hget'
      cases hget'
      exact halike
  · intro h
    have hlength := h.keys.length_eq
    rw [Fields.keys, Fields.keys, List.length_map, List.length_map] at hlength
    exact ⟨hlength, fun key x hget => h.exists_right hget⟩

/-- Two objects that are not both dates are alike by their fields. -/
theorem alike_object_iff (hx : (Fields.keys xs).Nodup)
    (hdate : asDate? (.object xs) = none ∨ asDate? (.object ys) = none) :
    alike (.object xs) (.object ys) = true ↔ FieldsAlike xs ys := by
  rw [← fieldsAlike_iff hx, alike]
  split
  · next s t hs ht =>
      rw [hs, ht] at hdate
      simp at hdate
  · rfl

/-- Two dates are alike if they are one instant. -/
theorem alike_dates_iff (hx : asDate? (.object xs) = some s)
    (hy : asDate? (.object ys) = some t) :
    alike (.object xs) (.object ys) = true ↔ s = t := by
  rw [alike, hx, hy]
  exact beq_iff_eq

/-- Being alike, for objects, in one of the two ways. -/
theorem alike_object_cases (hx : (Fields.keys xs).Nodup)
    (h : alike (.object xs) (.object ys) = true) :
    (∃ s, asDate? (.object xs) = some s ∧ asDate? (.object ys) = some s) ∨
      ((asDate? (.object xs) = none ∨ asDate? (.object ys) = none) ∧
        FieldsAlike xs ys) := by
  cases hs : asDate? (.object xs) with
  | none => exact .inr ⟨.inl rfl, (alike_object_iff hx (.inl hs)).mp h⟩
  | some s =>
      cases ht : asDate? (.object ys) with
      | none => exact .inr ⟨.inr rfl, (alike_object_iff hx (.inr ht)).mp h⟩
      | some t =>
          cases (alike_dates_iff hs ht).mp h
          exact .inl ⟨s, rfl, rfl⟩

/-- Objects with alike fields are alike, also if both are dates. -/
theorem FieldsAlike.alike (h : FieldsAlike xs ys)
    (hx : (Fields.keys xs).Nodup) :
    alike (.object xs) (.object ys) = true := by
  cases hs : asDate? (.object xs) with
  | none => exact (alike_object_iff hx (.inl hs)).mpr h
  | some s =>
      cases ht : asDate? (.object ys) with
      | none => exact (alike_object_iff hx (.inr ht)).mpr h
      | some t =>
          obtain ⟨v, hv, hs'⟩ := asDate?_eq_some_iff.mp hs
          obtain ⟨w, hw, ht'⟩ := asDate?_eq_some_iff.mp ht
          cases hv
          cases hw
          have hvw := h.values dateKey v w (if_pos rfl) (if_pos rfl)
          exact (alike_dates_iff hs ht).mpr (instant_eq_of_alike hs' ht' hvw)

/-- With one field there is one value to be alike to. -/
theorem FieldsAlike.single {key : String} (h : FieldsAlike [(key, v)] ys) :
    ∃ w, ys = [(key, w)] ∧ v.alike w = true := by
  have hperm : (Fields.keys ys).Perm [key] := h.keys.symm
  have hlength : ys.length = 1 := by
    rw [← List.length_map (·.1)]
    exact hperm.length_eq
  obtain ⟨⟨key', w⟩, rfl⟩ := List.length_eq_one_iff.mp hlength
  obtain rfl : key' = key :=
    List.mem_singleton.mp (hperm.subset List.mem_cons_self)
  exact ⟨w, rfl, h.values key' v w (if_pos rfl) (if_pos rfl)⟩

/-- Under the key of dates, unless both are dates. -/
theorem alike_of_alike_single (hnone : v.instant? = none ∨ w.instant? = none)
    (h : alike (.object [(dateKey, v)]) (.object [(dateKey, w)]) = true) :
    v.alike w = true := by
  have hnodup : (Fields.keys [(dateKey, v)]).Nodup :=
    List.nodup_singleton dateKey
  rw [alike_object_iff hnodup (by rwa [asDate?_single, asDate?_single])] at h
  exact h.values dateKey v w (if_pos rfl) (if_pos rfl)

/-! ## Reflexive and symmetric -/

theorem alike_self (h : v.WellFormed) : v.alike v = true := by
  induction v using parts_induction with
  | null => rfl
  | bool b => exact beq_self_eq_true b
  | number n => exact beq_self_eq_true n.units
  | string s => exact beq_self_eq_true s
  | array items ih =>
      refine alike_array_iff.mpr ⟨rfl, ?_⟩
      intro i x y hx hy
      obtain rfl : x = y := Option.some.inj (hx.symm.trans hy)
      have hmem := List.mem_of_getElem? hx
      exact ih x hmem (wellFormed_array_iff.mp h x hmem)
  | object fields ih =>
      obtain ⟨hkeys, hvalues⟩ := wellFormed_object_iff.mp h
      have hfields : FieldsAlike fields fields := by
        refine ⟨List.Perm.refl _, ?_⟩
        intro key x y hx hy
        obtain rfl : x = y := Option.some.inj (hx.symm.trans hy)
        have hentry := Fields.mem_of_get? hx
        exact ih _ hentry (hvalues _ hentry)
      exact hfields.alike hkeys

theorem alike_symm (hv : v.WellFormed) (hw : w.WellFormed)
    (h : v.alike w = true) :
    w.alike v = true := by
  induction v using parts_induction generalizing w with
  | null => cases w <;> first | rfl | cases h
  | bool b =>
      cases w with
      | bool b' =>
          rw [alike] at h ⊢
          rwa [BEq.comm]
      | _ => cases h
  | number n =>
      cases w with
      | number n' =>
          rw [alike, Number.alike] at h ⊢
          rwa [BEq.comm]
      | _ => cases h
  | string s =>
      rw [string_alike_iff.mp h]
      exact alike_string_iff.mpr rfl
  | array xs ih =>
      cases w with
      | array ys =>
          obtain ⟨hlength, hitems⟩ := alike_array_iff.mp h
          refine alike_array_iff.mpr ⟨hlength.symm, ?_⟩
          intro i y x hy hx
          have hmem := List.mem_of_getElem? hx
          exact ih x hmem (wellFormed_array_iff.mp hv x hmem)
            (wellFormed_array_iff.mp hw y (List.mem_of_getElem? hy))
              (hitems i x y hx hy)
      | _ => cases h
  | object xs ih =>
      cases w with
      | object ys =>
          obtain ⟨hxs, hvalues⟩ := wellFormed_object_iff.mp hv
          obtain ⟨hys, hvalues'⟩ := wellFormed_object_iff.mp hw
          rcases alike_object_cases hxs h with ⟨t, hx, hy⟩ | ⟨hdate, hfields⟩
          · exact (alike_dates_iff hy hx).mpr rfl
          · refine (alike_object_iff hys hdate.symm).mpr ⟨hfields.keys.symm, ?_⟩
            intro key y x hy hx
            have hentry := Fields.mem_of_get? hx
            exact ih _ hentry (hvalues _ hentry) (hw.get? hy)
              (hfields.values key x y hx hy)
      | _ => cases h

theorem alike_comm (hv : v.WellFormed) (hw : w.WellFormed) :
    v.alike w = w.alike v :=
  Bool.eq_iff_iff.mpr ⟨alike_symm hv hw, alike_symm hw hv⟩

/-! ## Nearly transitive -/

/-- At some place the one value has a date that is written as a text, and the
other one a number under the key of dates that is no date. -/
inductive Torn : Value → Value → Prop
  | date {text : String} {n : Number} {t : Instant}
      (htext : (Value.string text).instant? = some t)
      (hn : (Value.number n).instant? = none) :
      Torn (.object [(dateKey, .string text)]) (.object [(dateKey, .number n)])
  | date_symm {text : String} {n : Number} {t : Instant}
      (htext : (Value.string text).instant? = some t)
      (hn : (Value.number n).instant? = none) :
      Torn (.object [(dateKey, .number n)]) (.object [(dateKey, .string text)])
  | item {xs ys : List Value} {i : Nat} {x y : Value} (hx : xs[i]? = some x)
      (hy : ys[i]? = some y) (h : Torn x y) : Torn (.array xs) (.array ys)
  | field {xs ys : List (String × Value)} {key : String} {x y : Value}
      (hx : Fields.get? key xs = some x) (hy : Fields.get? key ys = some y)
      (h : Torn x y) :
      Torn (.object xs) (.object ys)

theorem Torn.symm (h : Torn v w) : Torn w v := by
  induction h with
  | date htext hn => exact .date_symm htext hn
  | date_symm htext hn => exact .date htext hn
  | item hx hy _ ih => exact .item hy hx ih
  | field hx hy _ ih => exact .field hy hx ih

/-- What names instants is not torn. -/
theorem not_torn_of_instant? (h : v.instant? = some t) : ¬ Torn v w := by
  intro htorn
  rcases instant?_cases h with ⟨s, rfl⟩ | ⟨n, hn, rfl, -⟩ <;> cases htorn

theorem Torn.alike_eq (h : Torn v w) (hv : v.WellFormed) :
    v.alike w = false := by
  rw [Bool.eq_false_iff]
  induction h with
  | @date text n t htext hn =>
      intro halike
      cases alike_of_alike_single (.inr hn) halike
  | @date_symm text n t htext hn =>
      intro halike
      cases alike_of_alike_single (.inl hn) halike
  | @item xs ys i x y hx hy _ ih =>
      intro halike
      exact ih (wellFormed_array_iff.mp hv x (List.mem_of_getElem? hx))
        ((alike_array_iff.mp halike).2 i x y hx hy)
  | @field xs ys key x y hx hy htorn ih =>
      intro halike
      rcases alike_object_cases (wellFormed_object_iff.mp hv).1 halike with
        ⟨t, hdate, -⟩ | ⟨-, hfields⟩
      · obtain ⟨x', hxs, hinstant⟩ := asDate?_eq_some_iff.mp hdate
        cases hxs
        rw [Fields.get?] at hx
        split at hx
        · cases hx
          exact not_torn_of_instant? hinstant htorn
        · cases hx
      · exact ih (hv.get? hx) (hfields.values key x y hx hy)

/-- A date is alike to one that is alike, by its fields, to something that is no
date, unless the two are torn. -/
theorem alike_of_date_of_fields (hxs : asDate? (.object xs) = some t)
    (hys : asDate? (.object ys) = some t) (hzs : asDate? (.object zs) = none)
    (hfields : FieldsAlike ys zs)
    (halike : alike (.object ys) (.object zs) = true)
    (htorn : ¬ Torn (.object xs) (.object zs)) :
    alike (.object xs) (.object zs) = true := by
  obtain ⟨v, hv, hvt⟩ := asDate?_eq_some_iff.mp hxs
  obtain ⟨w, hw, hwt⟩ := asDate?_eq_some_iff.mp hys
  cases hv
  cases hw
  obtain ⟨u, rfl, hwu⟩ := hfields.single
  have hu : u.instant? = none := by rwa [asDate?_single] at hzs
  rcases instant?_cases hwt with ⟨text, rfl⟩ | ⟨n, hn, rfl, hinstant⟩
  · rw [string_alike_iff.mp hwu, hwt] at hu
    cases hu
  · obtain ⟨m, rfl⟩ : ∃ m, u = .number m := by
      cases u with
      | number m => exact ⟨m, rfl⟩
      | _ => cases hwu
    rcases instant?_cases hvt with ⟨text, rfl⟩ | ⟨k, hk, rfl, hinstant'⟩
    · exact absurd (Torn.date hvt hu) htorn
    · cases Instant.ofMillis?_injective hinstant' hinstant
      exact halike

theorem alike_trans (ha : a.WellFormed) (hb : b.WellFormed) (hc : c.WellFormed)
    (hab : a.alike b = true) (hbc : b.alike c = true) (htorn : ¬ Torn a c) :
    a.alike c = true := by
  induction a using parts_induction generalizing b c with
  | null => cases b <;> first | exact hbc | cases hab
  | bool p =>
      cases b with
      | bool q =>
          rw [alike, beq_iff_eq] at hab
          rwa [hab]
      | _ => cases hab
  | number m =>
      cases b with
      | number n =>
          rw [alike, Number.alike, beq_iff_eq] at hab
          cases c with
          | number k => rwa [alike, Number.alike, hab]
          | _ => cases hbc
      | _ => cases hab
  | string s => rwa [string_alike_iff.mp hab] at hbc
  | array xs ih =>
      cases b with
      | array ys =>
          cases c with
          | array zs =>
              obtain ⟨hxy, hitems⟩ := alike_array_iff.mp hab
              obtain ⟨hyz, hitems'⟩ := alike_array_iff.mp hbc
              refine alike_array_iff.mpr ⟨hxy.trans hyz, ?_⟩
              intro i x z hx hz
              have hi : i < ys.length :=
                hxy ▸ (List.getElem?_eq_some_iff.mp hx).1
              have hy := List.getElem?_eq_getElem hi
              have hmem := List.mem_of_getElem? hx
              exact ih x hmem (wellFormed_array_iff.mp ha x hmem)
                (wellFormed_array_iff.mp hb _ (List.mem_of_getElem? hy))
                (wellFormed_array_iff.mp hc z (List.mem_of_getElem? hz))
                  (hitems i x _ hx hy)
                (hitems' i _ z hy hz) fun h => htorn (.item hx hz h)
          | _ => cases hbc
      | _ => cases hab
  | object xs ih =>
      cases b with
      | object ys =>
          cases c with
          | object zs =>
              obtain ⟨hxs, hvalues⟩ := wellFormed_object_iff.mp ha
              have hys := (wellFormed_object_iff.mp hb).1
              -- The two ways of being alike can follow one another in either
              -- order, and only then can the ends be torn.
              rcases alike_object_cases hxs hab with
                ⟨t, hx, hy⟩ | ⟨hdate, hfields⟩
              · rcases alike_object_cases hys hbc with
                  ⟨t', hy', hz⟩ | ⟨hdate', hfields'⟩
                · rw [hy] at hy'
                  exact (alike_dates_iff hx hz).mpr (Option.some.inj hy')
                · have hz := hdate'.resolve_left
                    (by rw [hy]; exact Option.some_ne_none t)
                  exact alike_of_date_of_fields hx hy hz hfields' hbc htorn
              · rcases alike_object_cases hys hbc with
                  ⟨t, hy, hz⟩ | ⟨hdate', hfields'⟩
                · have hx := hdate.resolve_right
                    (by rw [hy]; exact Option.some_ne_none t)
                  have hba := alike_symm ha hb hab
                  have hca := alike_of_date_of_fields hz hy hx
                    ((alike_object_iff hys (.inr hx)).mp hba) hba fun h =>
                      htorn h.symm
                  exact alike_symm hc ha hca
                · have hxz : FieldsAlike xs zs := by
                    refine hfields.trans hfields' ?_
                    intro key x y z hx hy hz hxy hyz
                    have hentry := Fields.mem_of_get? hx
                    exact ih _ hentry (hvalues _ hentry) (hb.get? hy)
                      (hc.get? hz) hxy hyz
                      fun h => htorn (.field hx hz h)
                  exact hxz.alike hxs
          | _ => cases hbc
      | _ => cases hab

/-! ## In sorts -/

theorem asString?_eq_of_alike (h : v.alike w = true) :
    v.asString? = w.asString? := by
  cases v with
  | string s => rw [string_alike_iff.mp h]
  | _ =>
      cases w with
      | string s => cases alike_string_iff.mp h
      | _ => rfl

theorem FieldsAlike.isPattern_eq (h : FieldsAlike xs ys) :
    isPattern (.object xs) = isPattern (.object ys) := by
  have hpattern : (Fields.get? patternKey xs).bind asString? =
      (Fields.get? patternKey ys).bind asString? := by
    rcases rel_cases (get?_of_perm h.keys h.values patternKey) with
      ⟨hx, hy⟩ | ⟨x, y, hx, hy, hxy⟩
    · rw [hx, hy]
    · rw [hx, hy]
      exact asString?_eq_of_alike hxy
  rw [isPattern_object, isPattern_object, hpattern, h.keys.all_eq]

/-- Values that are alike have one rank, unless only one of them is a date. -/
theorem rank_eq_of_alike (hv : v.WellFormed) (h : v.alike w = true)
    (hdate : v.isDate = w.isDate) :
    v.rank = w.rank := by
  cases v with
  | object xs =>
      cases w with
      | object ys =>
          rcases alike_object_cases (wellFormed_object_iff.mp hv).1 h with
            ⟨t, hx, hy⟩ | ⟨hnone, hfields⟩
          · rw [isDate_iff_rank.mp (by rw [isDate, hx]; rfl),
              isDate_iff_rank.mp (by rw [isDate, hy]; rfl)]
          · have hboth : isDate (.object xs) = false ∧
                isDate (.object ys) = false := by
              rcases hnone with hnone | hnone
              · have hx : isDate (.object xs) = false := by
                  rw [isDate, hnone]; rfl
                exact ⟨hx, hdate ▸ hx⟩
              · have hy : isDate (.object ys) = false := by
                  rw [isDate, hnone]; rfl
                exact ⟨hdate.trans hy, hy⟩
            rw [rank_of_not_isDate hboth.1, rank_of_not_isDate hboth.2,
              hfields.isPattern_eq]
      | _ => cases h
  | _ =>
      cases w with
      | _ => first | rfl | cases h

/-- Values that are alike sort alike, unless only one of them is a date. -/
theorem sortCompare_of_alike (hv : v.WellFormed) (h : v.alike w = true)
    (hdate : v.isDate = w.isDate) : sortCompare (some v) (some w) = .eq := by
  rw [sortCompare_of_rank_eq (rank_eq_of_alike hv h hdate)]
  cases hcompare : compare? v w with
  | none => rfl
  | some o => exact (compare?_eq_iff_alike hcompare).mpr h

/-- Being alike is reflexive and symmetric. It is transitive except from a date
that is a text to a number under the key of dates that is no date, through a
date that is a number equal to it; and values that are alike have one place in
sorts unless only one of them is a date. -/
theorem alike_unless_torn (ha : a.WellFormed) (hb : b.WellFormed)
    (hc : c.WellFormed) :
    a.alike a = true ∧ a.alike b = b.alike a ∧
      (a.alike b = true → b.alike c = true → (a.alike c = true ↔ ¬ Torn a c)) ∧
      (a.alike b = true →
        ((∀ d, sortCompare (some a) d = sortCompare (some b) d) ↔
          a.isDate = b.isDate)) := by
  refine ⟨alike_self ha, alike_comm ha hb, ?_, ?_⟩
  · intro hab hbc
    refine ⟨?_, alike_trans ha hb hc hab hbc⟩
    intro hac htorn
    rw [htorn.alike_eq ha] at hac
    cases hac
  · intro hab
    refine ⟨?_, ?_⟩
    · intro hsort
      have hself : sortCompare (some b) (some b) = .eq :=
        Std.ReflCmp.compare_self
      exact isDate_eq_of_rank_eq
        (rank_eq_of_sortCompare ((hsort (some b)).trans hself))
    · intro hdate d
      exact Std.TransCmp.congr_left (sortCompare_of_alike ha hab hdate)

/-- The first millisecond of 1970, as a text. -/
def firstMillisText : Value :=
  .object [(dateKey, .string "1970-01-01T00:00:00.001Z")]

def firstMillis : Value := .object [(dateKey, .ofInt 1)]

/-- The same number, but as a double, which names no instant. -/
def firstMillisDouble : Value :=
  .object
    [(dateKey, .number (.double ((Double.ofInt? 1).getD (Double.zero false))))]

theorem alike_unless_torn_firstMillis :
    (firstMillisText.WellFormed ∧ firstMillis.WellFormed ∧
        firstMillisDouble.WellFormed) ∧
      (firstMillisText.alike firstMillis = true ∧
          firstMillis.alike firstMillisDouble = true ∧
        Torn firstMillisText firstMillisDouble ∧
        firstMillis.isDate ≠ firstMillisDouble.isDate) ∧
      firstMillisText.alike firstMillisText = true ∧
      firstMillisText.alike firstMillis = firstMillis.alike firstMillisText ∧
      (firstMillisText.alike firstMillis = true →
          firstMillis.alike firstMillisDouble = true →
        (firstMillisText.alike firstMillisDouble = true ↔
          ¬ Torn firstMillisText firstMillisDouble)) ∧
      (firstMillisText.alike firstMillis = true →
        ((∀ d, sortCompare (some firstMillisText) d =
            sortCompare (some firstMillis) d) ↔
          firstMillisText.isDate = firstMillis.isDate)) := by
  have htext : firstMillisText.WellFormed :=
    ⟨List.nodup_singleton _, trivial, trivial⟩
  have hmillis : firstMillis.WellFormed :=
    ⟨List.nodup_singleton _, trivial, trivial⟩
  have hdouble : firstMillisDouble.WellFormed :=
    ⟨List.nodup_singleton _, trivial, trivial⟩
  have htorn : Torn firstMillisText firstMillisDouble :=
    .date (t := ⟨0, 1000000, by decide⟩) (by decide +kernel) rfl
  exact ⟨⟨htext, hmillis, hdouble⟩,
    ⟨by decide +kernel, by decide +kernel, htorn, by decide +kernel⟩,
    alike_unless_torn htext hmillis hdouble⟩

end DocumentStore.Value
