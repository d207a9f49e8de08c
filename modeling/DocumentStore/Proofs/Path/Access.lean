import DocumentStore.Path.Access
import DocumentStore.Proofs.Value.WellFormed

/-!
# What writing at a path leaves as it was

Lookup, assignment and removal stay within the well-formed values. In an object
a write touches one field, the one that the first segment names: `assign_object`
and `erase_object` say what becomes of it, and the lemmas about the other fields
and about identifiers are read off from them.

An assignment past the first segment ends in a container and a removal past it
keeps the kind of what it changes, so neither turns a field into null.
-/

namespace DocumentStore.Path

variable {segment : Segment} {v w new : Value}

/-- Segments lead to where the first of them lead, and the others from there. -/
theorem lookup_append (segments segments' : List Segment) (v : Value) :
    lookup (segments ++ segments') v =
      (lookup segments v).bind (lookup segments') := by
  induction segments generalizing v with
  | nil => rfl
  | cons segment rest ih =>
      rw [List.cons_append, lookup, lookup, Option.bind_assoc]
      exact congrArg _ (funext ih)

/-! ## Well-formed values -/

theorem wellFormed_of_child? (hv : v.WellFormed)
    (hchild : child? segment v = some w) :
    w.WellFormed := by
  cases v with
  | object fields => exact hv.get? hchild
  | array items =>
      cases segment with
      | key name => cases hchild
      | index i =>
          exact Value.wellFormed_array_iff.mp hv w (List.mem_of_getElem? hchild)
  | null => cases hchild
  | bool b => cases hchild
  | number n => cases hchild
  | string s => cases hchild

theorem wellFormed_of_lookup (segments : List Segment) (hv : v.WellFormed)
    (hlookup : lookup segments v = some w) : w.WellFormed := by
  induction segments generalizing v with
  | nil =>
      cases hlookup
      exact hv
  | cons segment rest ih =>
      rw [lookup, Option.bind_eq_some_iff] at hlookup
      obtain ⟨child, hchild, hrest⟩ := hlookup
      exact ih (wellFormed_of_child? hv hchild) hrest

theorem wellFormed_container (segment : Segment) (hv : v.WellFormed) :
    (container segment v).WellFormed := by
  have hempty : segment.emptyContainer.WellFormed := by
    cases segment with
    | key name => exact Value.wellFormed_emptyObject
    | index i => exact Value.wellFormed_emptyArray
  cases v with
  | object fields => exact hv
  | array items => exact hv
  | null => exact hempty
  | bool b => exact hempty
  | number n => exact hempty
  | string s => exact hempty

theorem wellFormed_put (segment : Segment) (hnew : new.WellFormed)
    (hv : v.WellFormed) :
    (put segment new v).WellFormed := by
  cases v with
  | object fields => exact hv.insert _ hnew
  | array items =>
      cases segment with
      | key name => exact hv
      | index i =>
          rw [put, Value.wellFormed_array_iff]
          intro x hx
          rcases List.mem_or_eq_of_mem_set hx with hx | rfl
          · rcases List.mem_append.mp hx with hx | hx
            · exact Value.wellFormed_array_iff.mp hv x hx
            · rw [List.eq_of_mem_replicate hx]
              exact Value.wellFormed_null
          · exact hnew
  | null => exact hv
  | bool b => exact hv
  | number n => exact hv
  | string s => exact hv

theorem wellFormed_assign (segments : List Segment) (hnew : new.WellFormed)
    (hv : v.WellFormed) :
    (assign segments new v).1.WellFormed := by
  induction segments generalizing v with
  | nil => exact hnew
  | cons segment rest ih =>
      have hparent := wellFormed_container segment hv
      rw [assign]
      simp only []
      split
      · exact hparent
      · have hchild :
            ((child? segment (container segment v)).getD .null).WellFormed :=
          Value.wellFormed_getD fun child hget =>
            wellFormed_of_child? hparent hget
        exact wellFormed_put segment (ih hchild) hparent

theorem set_eq_ok_iff {p : Path} :
    p.set new v = .ok w ↔ assign p.segments new v = (w, .ok ()) := by
  rw [set]
  split
  · next changed heq => simp [heq]
  · next changed e heq => simp [heq]

theorem wellFormed_set {p : Path} (hnew : new.WellFormed) (hv : v.WellFormed)
    (hset : p.set new v = .ok w) : w.WellFormed := by
  have hassign := wellFormed_assign p.segments hnew hv
  rwa [set_eq_ok_iff.mp hset] at hassign

theorem mem_of_mem_modify {items : List Value} {i : Nat} {f : Value → Value}
    {x : Value} (h : x ∈ items.modify i f) :
    x ∈ items ∨ ∃ y ∈ items, x = f y := by
  obtain ⟨j, hj⟩ := List.mem_iff_getElem?.mp h
  rw [List.getElem?_modify] at hj
  obtain ⟨y, hy, hx⟩ := Option.map_eq_some_iff.mp hj
  have hmem := List.mem_of_getElem? hy
  split at hx
  · exact .inr ⟨y, hmem, hx.symm⟩
  · exact .inl (hx ▸ hmem)

theorem wellFormed_erase (segments : List Segment) (hv : v.WellFormed) :
    (erase segments v).WellFormed := by
  induction segments generalizing v with
  | nil =>
      rw [erase]
      exact hv
  | cons segment rest ih =>
      cases v with
      | object fields =>
          cases rest with
          | nil =>
              rw [erase]
              exact hv.of_sublist (Fields.erase_sublist _ _)
          | cons next rest =>
              rw [erase]
              · obtain ⟨hkeys, hvalues⟩ := Value.wellFormed_object_iff.mp hv
                refine Value.wellFormed_object_iff.mpr ⟨?_, ?_⟩
                · rwa [Fields.keys_modify]
                · intro entry hentry
                  rcases Fields.mem_modify hentry with hmem | ⟨x, hx, rfl⟩
                  · exact hvalues entry hmem
                  · exact ih (hvalues _ hx)
              · simp
      | array items =>
          have hitems := Value.wellFormed_array_iff.mp hv
          cases segment with
          | key name =>
              cases rest with
              | nil => rw [erase] <;> simp [hv]
              | cons next rest => rw [erase] <;> simp [hv]
          | index i =>
              cases rest with
              | nil =>
                  rw [erase, Value.wellFormed_array_iff]
                  intro x hx
                  rcases List.mem_or_eq_of_mem_set hx with hx | rfl
                  · exact hitems x hx
                  · exact Value.wellFormed_null
              | cons next rest =>
                  rw [erase, Value.wellFormed_array_iff]
                  · intro x hx
                    rcases mem_of_mem_modify hx with hx | ⟨y, hy, rfl⟩
                    · exact hitems x hx
                    · exact ih (hitems y hy)
                  · simp
      | null => cases rest <;> rw [erase] <;> simp [hv]
      | bool b => cases rest <;> rw [erase] <;> simp [hv]
      | number n => cases rest <;> rw [erase] <;> simp [hv]
      | string s => cases rest <;> rw [erase] <;> simp [hv]

/-! ## Writing into an object -/

variable {fields : List (String × Value)}

/-- What is written below the first segment of a path into an object, and how
that ends. -/
def below (segment : Segment) (rest : List Segment) (new : Value)
    (fields : List (String × Value)) : Value × Result Unit :=
  assign rest new ((Fields.get? segment.text fields).getD .null)

theorem assign_object (segment : Segment) (rest : List Segment) (new : Value)
    (fields : List (String × Value)) :
    assign (segment :: rest) new (.object fields) =
      (.object (Fields.insert segment.text
          (below segment rest new fields).1 fields),
        (below segment rest new fields).2) := rfl

theorem isObject_assign (segments : List Segment) (hne : segments ≠ [])
    (hv : v.isObject = true) :
    (assign segments new v).1.isObject = true := by
  obtain ⟨segment, rest, rfl⟩ := List.exists_cons_of_ne_nil hne
  obtain ⟨fields, rfl⟩ := Value.exists_fields_of_isObject hv
  rfl

theorem isObject_set {p : Path} (hv : v.isObject = true)
    (hset : p.set new v = .ok w) :
    w.isObject = true := by
  have hassign : (assign p.segments new v).1.isObject = true :=
    isObject_assign p.segments p.nonempty hv
  rwa [set_eq_ok_iff.mp hset] at hassign

theorem isObject_erase (segments : List Segment) (hv : v.isObject = true) :
    (erase segments v).isObject = true := by
  obtain ⟨fields, rfl⟩ := Value.exists_fields_of_isObject hv
  cases segments with
  | nil => rfl
  | cons segment rest => cases rest <;> rfl

/-! ## Fields that become null -/

theorem isNull_put (segment : Segment) (new v : Value) :
    (put segment new v).isNull = v.isNull := by
  cases v with
  | array items => cases segment <;> rfl
  | object fields => rfl
  | null => rfl
  | bool b => rfl
  | number n => rfl
  | string s => rfl

theorem isNull_container (segment : Segment) (v : Value) :
    (container segment v).isNull = false := by
  cases v with
  | array items => rfl
  | object fields => rfl
  | null => cases segment <;> rfl
  | bool b => cases segment <;> rfl
  | number n => cases segment <;> rfl
  | string s => cases segment <;> rfl

theorem isNull_assign (segment : Segment) (rest : List Segment)
    (new v : Value) :
    (assign (segment :: rest) new v).1.isNull = false := by
  rw [assign]
  simp only []
  split
  · exact isNull_container segment v
  · exact (isNull_put _ _ _).trans (isNull_container segment v)

theorem isNull_erase (segments : List Segment) (v : Value) :
    (erase segments v).isNull = v.isNull := by
  cases segments with
  | nil => rw [erase]
  | cons segment rest =>
      cases v with
      | object fields => cases rest <;> rfl
      | array items => cases segment <;> cases rest <;> rfl
      | null => cases rest <;> rfl
      | bool b => cases rest <;> rfl
      | number n => cases rest <;> rfl
      | string s => cases rest <;> rfl

/-! ## Identifiers -/

/-- No index is a field whose key is no number. -/
theorem text_index_ne (i : Nat) : (Segment.index i).text ≠ idKey := by
  intro h
  have hchars : Nat.toDigits 10 i = ['_', 'i', 'd'] := String.ofList_injective h
  have hmem : '_' ∈ Nat.toDigits 10 i := by
    rw [hchars]
    exact List.mem_cons_self
  have hdigit := Nat.isDigit_of_mem_toDigits (by decide) (by decide) hmem
  cases hdigit

theorem text_ne_idKey (h : segment ≠ .key idKey) : segment.text ≠ idKey := by
  cases segment with
  | key name =>
      intro hname
      exact h (congrArg Segment.key hname)
  | index i => exact text_index_ne i

end DocumentStore.Path
