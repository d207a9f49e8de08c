import DocumentStore.Proofs.Path.Frame
import DocumentStore.Proofs.Value.Reordered
import Mathlib.Data.List.Perm.Subperm

/-!
# Assigning at several paths

Assignments at paths that diverge give the same value in any order in which they
succeed, up to the order of fields (`Assigned.reordered`). Two neighbours cannot
just be swapped: between two orders that succeed there may be none that does,
since an array is padded only so far, and since the first assignment below a
place where no container is decides what is made there.

So both orders are taken apart by the part that they lead to. What becomes of
the part under a key is the work of the assignments that lead there alone, in
the order in which they stand (`Assigned.object`, `Assigned.array`), and these
are fewer segments away from where they write (`under_induction`). That leaves
the container. If the two orders did not make the same one, an array would be
made in the one and a key be assigned in it, which fails.
-/

namespace DocumentStore.Path

open DocumentStore.Value (Reordered)

variable {segment : Segment} {p q rest : List Segment} {v w w' x y : Value}
  {key : String}
  {write : List Segment × Value} {writes writes' : List (List Segment × Value)}

/-- Assign at several paths, one after the other. All of it succeeds. -/
inductive Assigned : List (List Segment × Value) → Value → Value → Prop
  | nil (v : Value) : Assigned [] v v
  | cons {p : List Segment} {x v u w : Value}
      {writes : List (List Segment × Value)}
      (h : assign p x v = (u, .ok ())) (hrest : Assigned writes u w) :
      Assigned ((p, x) :: writes) v w

theorem assigned_cons_iff : Assigned ((p, x) :: writes) v w ↔
    ∃ u, assign p x v = (u, .ok ()) ∧ Assigned writes u w := by
  refine ⟨?_, fun ⟨u, h, hrest⟩ => .cons h hrest⟩
  intro h
  cases h with
  | cons h hrest => exact ⟨_, h, hrest⟩

theorem Diverge.symm (h : Diverge p q) : Diverge q p := by
  obtain ⟨i, a, b, ha, hb, hne, hbefore⟩ := h
  exact ⟨i, b, a, hb, ha, hne.symm, fun j hj => (hbefore j hj).symm⟩

/-! ## Reading back -/

theorem Assigned.lookup_kept (h : Assigned writes v w)
    (hdiverge : ∀ write ∈ writes, Diverge write.1 q)
    (hq : lookup q v = some y) : lookup q w = some y := by
  induction h with
  | nil v => exact hq
  | cons h _ ih =>
      obtain ⟨hfirst, hothers⟩ := List.forall_mem_cons.mp hdiverge
      have hkept := kept_of_diverge h hfirst
      rw [hq] at hkept
      exact ih hothers (hkept.resolve_right fun hnone =>
        Option.some_ne_none y hnone.1)

theorem Assigned.lookup_eq (h : Assigned writes v w)
    (hdiverge : writes.Pairwise fun a b => Diverge a.1 b.1)
    (hwrite : write ∈ writes) :
    lookup write.1 w = some write.2 := by
  induction h with
  | nil v => cases hwrite
  | cons h hrest ih =>
      obtain ⟨hfirst, hothers⟩ := List.pairwise_cons.mp hdiverge
      rcases List.mem_cons.mp hwrite with rfl | hmem
      · exact hrest.lookup_kept (fun other hother => (hfirst other hother).symm)
          (lookup_of_assign h)
      · exact ih hothers hmem

/-- To assign what is there already changes nothing. -/
theorem assigned_self (h : ∀ write ∈ writes, lookup write.1 w = some write.2) :
    Assigned writes w w := by
  induction writes with
  | nil => exact .nil w
  | cons write rest ih =>
      obtain ⟨hfirst, hothers⟩ := List.forall_mem_cons.mp h
      exact .cons (assign_of_lookup hfirst) (ih hothers)

/-! ## The assignments under a key -/

/-- What is left of an assignment under a key, if it leads there. -/
def under? (key : String) : List Segment × Value → Option (List Segment × Value)
  | ([], _) => none
  | (segment :: rest, x) => if segment.text = key then some (rest, x) else none

/-- The assignments that lead under a key, from there on. -/
def under (key : String) (writes : List (List Segment × Value)) :
    List (List Segment × Value) :=
  writes.filterMap (under? key)

theorem under?_eq_some_iff : under? key write = some (rest, x) ↔
    ∃ segment, segment.text = key ∧ write = (segment :: rest, x) := by
  obtain ⟨p, y⟩ := write
  cases p with
  | nil => simp [under?]
  | cons segment more =>
      rw [under?]
      split <;> simp_all

theorem under_cons_of_eq (h : segment.text = key) :
    under key ((segment :: rest, x) :: writes) =
      (rest, x) :: under key writes :=
  List.filterMap_cons_some (if_pos h)

theorem under_cons_of_ne (h : segment.text ≠ key) :
    under key ((segment :: rest, x) :: writes) = under key writes :=
  List.filterMap_cons_none (if_neg h)

theorem mem_under : (rest, x) ∈ under key writes ↔
    ∃ segment, segment.text = key ∧ (segment :: rest, x) ∈ writes := by
  rw [under, List.mem_filterMap]
  refine ⟨?_, ?_⟩
  · rintro ⟨write, hmem, hwrite⟩
    obtain ⟨segment, htext, rfl⟩ := under?_eq_some_iff.mp hwrite
    exact ⟨segment, htext, hmem⟩
  · rintro ⟨segment, htext, hmem⟩
    exact ⟨_, hmem, under?_eq_some_iff.mpr ⟨segment, htext, rfl⟩⟩

theorem pairwise_under (h : writes.Pairwise fun a b => Diverge a.1 b.1)
    (key : String) :
    (under key writes).Pairwise fun a b => Diverge a.1 b.1 := by
  refine List.pairwise_filterMap.mpr (h.imp ?_)
  rintro a b hdiverge ⟨p, x⟩ hp ⟨q, y⟩ hq
  obtain ⟨segment, htext, rfl⟩ := under?_eq_some_iff.mp hp
  obtain ⟨other, htext', rfl⟩ := under?_eq_some_iff.mp hq
  rcases diverge_cons_iff.mp hdiverge with hne | ⟨-, hrest⟩
  · exact absurd (htext.trans htext'.symm) hne
  · exact hrest

/-- A path without segments diverges from no other, so it is the only one. -/
theorem eq_singleton_of_nil_mem
    (hdiverge : writes.Pairwise fun a b => Diverge a.1 b.1)
    (hwrite : write ∈ writes) (hnil : write.1 = []) : writes = [write] := by
  obtain ⟨before, after, rfl⟩ := List.append_of_mem hwrite
  obtain ⟨-, hafter, hbefore⟩ := List.pairwise_append.mp hdiverge
  obtain rfl : before = [] := by
    refine List.eq_nil_iff_forall_not_mem.mpr fun other hother => ?_
    exact not_diverge_nil_right _
      (hnil ▸ hbefore other hother write List.mem_cons_self)
  obtain rfl : after = [] := by
    refine List.eq_nil_iff_forall_not_mem.mpr fun other hother => ?_
    exact not_diverge_nil_left _
      (hnil ▸ (List.pairwise_cons.mp hafter).1 other hother)
  rfl

/-- The assignments under each key are fewer segments away from where they
write, so this is an induction along them: they are none, or one that replaces
the value, or all of them go on into its parts. -/
@[elab_as_elim]
theorem under_induction
    {motive : (writes : List (List Segment × Value)) →
      (writes.Pairwise fun a b => Diverge a.1 b.1) → Prop}
    (nil : motive [] .nil)
    (leaf : ∀ x, motive [([], x)] (List.pairwise_singleton _ _))
    (node : ∀ writes hdiverge, (∀ write ∈ writes, write.1 ≠ []) →
      (∀ key, motive (under key writes) (pairwise_under hdiverge key)) →
        motive writes hdiverge)
    (writes : List (List Segment × Value))
    (hdiverge : writes.Pairwise fun a b => Diverge a.1 b.1) :
    motive writes hdiverge := by
  obtain ⟨n, hlength⟩ : ∃ n, ∀ write ∈ writes, write.1.length < n := by
    refine ⟨(writes.map (·.1)).flatten.length + 1, fun write hwrite => ?_⟩
    have hsub := List.sublist_flatten_of_mem
      (List.mem_map_of_mem (f := (·.1)) hwrite)
    exact Nat.lt_succ_of_le hsub.length_le
  induction n generalizing writes with
  | zero =>
      obtain rfl : writes = [] :=
        List.eq_nil_iff_forall_not_mem.mpr fun write hwrite =>
        Nat.not_lt_zero _ (hlength write hwrite)
      exact nil
  | succ n ih =>
      by_cases hproper : ∀ write ∈ writes, write.1 ≠ []
      · refine node writes hdiverge hproper fun key =>
          ih _ (pairwise_under hdiverge key) ?_
        rintro ⟨rest, x⟩ hwrite
        obtain ⟨segment, -, hmem⟩ := mem_under.mp hwrite
        exact Nat.lt_of_succ_lt_succ (hlength _ hmem)
      · obtain ⟨⟨p, x⟩, hwrite, hnil⟩ : ∃ write ∈ writes, write.1 = [] := by
          simpa using hproper
        cases hnil
        obtain rfl := eq_singleton_of_nil_mem hdiverge hwrite rfl
        exact leaf x

theorem under_eq_nil_iff (h : writes.Perm writes') :
    under key writes = [] ↔ under key writes' = [] := by
  have hperm : (under key writes).Perm (under key writes') := h.filterMap _
  rw [← List.length_eq_zero_iff, ← List.length_eq_zero_iff, hperm.length_eq]

/-! ## In an object -/

/-- The part under each key is what the assignments that lead there make of the
part there was, and only they bring about fields. -/
theorem Assigned.object {fields : List (String × Value)}
    (h : Assigned writes (.object fields) w)
    (hproper : ∀ write ∈ writes, write.1 ≠ []) :
    ∃ after, w = .object after ∧
      ((Fields.keys fields).Nodup → (Fields.keys after).Nodup) ∧
      ∀ key, (Fields.get? key after = none ↔
          Fields.get? key fields = none ∧ under key writes = []) ∧
        Assigned (under key writes) ((Fields.get? key fields).getD .null)
          ((Fields.get? key after).getD .null) := by
  generalize hobject : Value.object fields = v at h
  induction h generalizing fields with
  | nil v =>
      subst hobject
      exact ⟨fields, rfl, id, fun key => ⟨by simp [under], .nil _⟩⟩
  | @cons p x v u w writes h hrest ih =>
      subst hobject
      obtain ⟨hfirst, hothers⟩ := List.forall_mem_cons.mp hproper
      obtain ⟨segment, rest, rfl⟩ := List.exists_cons_of_ne_nil hfirst
      rw [assign_object, Prod.mk.injEq] at h
      obtain ⟨rfl, hok⟩ := h
      have hbelow : assign rest x
          ((Fields.get? segment.text fields).getD .null) =
          ((Path.below segment rest x fields).1, .ok ()) := Prod.ext rfl hok
      obtain ⟨after, rfl, hnodup, hparts⟩ := ih hothers rfl
      refine ⟨after, rfl, fun hkeys =>
        hnodup (Fields.nodup_keys_insert _ _ hkeys), ?_⟩
      intro key
      obtain ⟨hnone, hpart⟩ := hparts key
      by_cases htext : segment.text = key
      · subst htext
        rw [Fields.get?_insert_self] at hnone hpart
        rw [under_cons_of_eq rfl]
        exact ⟨iff_of_false (by simp [hnone]) (by simp), .cons hbelow hpart⟩
      · rw [Fields.get?_insert_of_ne htext] at hnone hpart
        rw [under_cons_of_ne htext]
        exact ⟨hnone, hpart⟩

theorem mem_keys_iff {fields : List (String × Value)} :
    key ∈ Fields.keys fields ↔ Fields.get? key fields ≠ none := by
  rw [ne_eq, Fields.get?_eq_none_iff, not_not]

/-- Two orders agree on what they lead to under each key. -/
def AgreeBelow (writes writes' : List (List Segment × Value)) : Prop :=
  ∀ (key : String) (v w w' : Value), v.WellFormed →
    Assigned (under key writes) v w →
    Assigned (under key writes') v w' → Reordered w w'

theorem reordered_of_object {fields : List (String × Value)}
    (hv : (Value.object fields).WellFormed)
    (hproper : ∀ write ∈ writes, write.1 ≠ []) (hperm : writes.Perm writes')
    (hagree : AgreeBelow writes writes')
    (h : Assigned writes (.object fields) w)
    (h' : Assigned writes' (.object fields) w') : Reordered w w' := by
  have hkeys := (Value.wellFormed_object_iff.mp hv).1
  obtain ⟨after, rfl, hnodup, hafter⟩ := h.object hproper
  obtain ⟨after', rfl, hnodup', hafter'⟩ :=
    h'.object fun write hmem => hproper write (hperm.mem_iff.mpr hmem)
  refine .object (hnodup hkeys) ?_ ?_
  · refine (List.perm_ext_iff_of_nodup (hnodup hkeys) (hnodup' hkeys)).mpr
      fun key => ?_
    rw [mem_keys_iff, mem_keys_iff, ne_eq, ne_eq, (hafter key).1,
      (hafter' key).1, under_eq_nil_iff hperm]
  · intro key x y hx hy
    have hpart := (hafter key).2
    have hpart' := (hafter' key).2
    rw [hx] at hpart
    rw [hy] at hpart'
    exact hagree key _ x y (Value.wellFormed_getD fun part hget => hv.get? hget)
      hpart hpart'

/-! ## In an array -/

theorem getD_pad_set (items : List Value) (i j : Nat) (part : Value) :
    ((items ++ List.replicate (i + 1 - items.length) Value.null).set i
        part)[j]?.getD .null =
      if i = j then part else items[j]?.getD .null := by
  rw [getElem?_pad_set]
  split
  · rfl
  · split
    · rfl
    · next hlength =>
        rw [List.getElem?_eq_none (Nat.not_lt.mp hlength)]
        split <;> rfl

theorem length_pad_set (items : List Value) (i : Nat) (part : Value) :
    ((items ++ List.replicate (i + 1 - items.length) Value.null).set i
        part).length =
      max items.length (i + 1) := by
  rw [List.length_set, List.length_append, List.length_replicate]
  omega

/-- The paths begin with indices. The element at each index is what the
assignments that lead there make of the one there was, or of null, and the array
is as long as they need it to be. -/
theorem Assigned.array {items : List Value}
    (h : Assigned writes (.array items) w)
    (hproper : ∀ write ∈ writes, write.1 ≠ []) :
    (∀ write ∈ writes, ∃ i rest, write.1 = .index i :: rest) ∧
      ∃ after, w = .array after ∧
        (∀ n, after.length ≤ n ↔ items.length ≤ n ∧
          ∀ i, under (Segment.index i).text writes ≠ [] → i < n) ∧
        ∀ i, Assigned (under (Segment.index i).text writes)
          (items[i]?.getD .null)
          (after[i]?.getD .null) := by
  generalize harray : Value.array items = v at h
  induction h generalizing items with
  | nil v =>
      subst harray
      exact ⟨nofun, items, rfl, by simp [under], fun i => .nil _⟩
  | @cons p x v u w writes h hrest ih =>
      subst harray
      obtain ⟨hfirst, hothers⟩ := List.forall_mem_cons.mp hproper
      obtain ⟨segment, rest, rfl⟩ := List.exists_cons_of_ne_nil hfirst
      obtain ⟨hadmits, part, hpart, rfl⟩ := assign_cons_eq_ok_iff.mp h
      cases hadmits with
      | array i items hgap =>
          obtain ⟨hindices, after, rfl, hlength, hparts⟩ := ih hothers rfl
          refine ⟨List.forall_mem_cons.mpr ⟨⟨i, rest, rfl⟩, hindices⟩, after,
            rfl, ?_, ?_⟩
          · intro n
            rw [hlength, length_pad_set, Nat.max_le, Nat.succ_le_iff, and_assoc]
            refine and_congr_right fun _ => ⟨?_, ?_⟩
            · rintro ⟨hi, hrest⟩ j hj
              by_cases hij : i = j
              · exact hij ▸ hi
              · refine hrest j ?_
                rwa [under_cons_of_ne fun htext => hij
                  (eq_of_text_index htext)] at hj
            · intro hall
              refine ⟨hall i (by simp [under_cons_of_eq]), ?_⟩
              intro j hj
              by_cases hij : i = j
              · exact hall j (by simp [under_cons_of_eq, hij])
              · refine hall j ?_
                rwa [under_cons_of_ne fun htext => hij (eq_of_text_index htext)]
          · intro j
            have helement := hparts j
            rw [getD_pad_set] at helement
            by_cases hij : i = j
            · subst hij
              rw [if_pos rfl] at helement
              rw [under_cons_of_eq rfl]
              exact .cons hpart helement
            · rw [if_neg hij] at helement
              rwa [under_cons_of_ne fun htext => hij (eq_of_text_index htext)]

theorem reordered_of_array {items : List Value}
    (hv : (Value.array items).WellFormed)
    (hproper : ∀ write ∈ writes, write.1 ≠ []) (hperm : writes.Perm writes')
    (hagree : AgreeBelow writes writes') (h : Assigned writes (.array items) w)
    (h' : Assigned writes' (.array items) w') : Reordered w w' := by
  obtain ⟨-, after, rfl, hlength, hafter⟩ := h.array hproper
  obtain ⟨-, after', rfl, hlength', hafter'⟩ :=
    h'.array fun write hmem => hproper write (hperm.mem_iff.mpr hmem)
  have hbound : ∀ n, after.length ≤ n ↔ after'.length ≤ n := by
    intro n
    simp only [hlength, hlength', ne_eq, under_eq_nil_iff hperm]
  refine .array (Nat.le_antisymm ((hbound _).mpr (Nat.le_refl _))
    ((hbound _).mp (Nat.le_refl _))) ?_
  intro i x y hx hy
  have helement := hafter i
  have helement' := hafter' i
  rw [hx] at helement
  rw [hy] at helement'
  refine hagree _ _ x y (Value.wellFormed_getD fun item hitem => ?_)
    helement helement'
  exact Value.wellFormed_array_iff.mp hv item (List.mem_of_getElem? hitem)

/-! ## The container -/

theorem container_container (segment : Segment) (v : Value) :
    container segment (container segment v) = container segment v := by
  rcases container_cases segment v with
    ⟨fields, h⟩ | ⟨items, h⟩ <;> rw [h] <;> rfl

/-- The container that the first assignment finds or makes is what the others
find. -/
theorem Assigned.container (h : Assigned ((segment :: rest, x) :: writes) v w) :
    Assigned ((segment :: rest, x) :: writes) (container segment v) w := by
  cases h with
  | cons h hrest =>
      refine .cons ?_ hrest
      rw [assign, container_container]
      rwa [assign] at h

/-- What two segments make of a value differs only if one is a key, and then
only if there is no container. -/
theorem container_cases_of_two (segment other : Segment) (v : Value) :
    container segment v = container other v ∨
      (∃ name, segment = .key name ∧ container other v = .array []) ∨
      ∃ name, other = .key name ∧ container segment v = .array [] := by
  cases v <;> cases segment <;> cases other <;> simp [container,
    Segment.emptyContainer]

/-- A key cannot be assigned in an array, at any time. -/
theorem Assigned.key_notMem {items : List Value}
    (h : Assigned writes (.array items) w)
    (hproper : ∀ write ∈ writes, write.1 ≠ []) :
    (.key key :: rest, x) ∉ writes := by
  intro hmem
  obtain ⟨i, more, hindex⟩ := (h.array hproper).1 _ hmem
  cases hindex

/-! ## Any order -/

theorem Assigned.eq_of_nil (h : Assigned [([], x)] v w) : w = x := by
  cases h with
  | cons h hrest =>
      cases h
      cases hrest
      rfl

theorem reordered_of_nil (hv : v.WellFormed) (h : Assigned [] v w)
    (h' : Assigned [] v w') :
    Reordered w w' := by
  cases h
  cases h'
  exact Reordered.refl v hv

/-- If no assignment replaces the value, it is enough that the orders agree on
its parts. -/
theorem reordered_of_agreeBelow (hv : v.WellFormed)
    (hproper : ∀ write ∈ writes, write.1 ≠ []) (hperm : writes.Perm writes')
    (hagree : AgreeBelow writes writes') (h : Assigned writes v w)
    (h' : Assigned writes' v w') : Reordered w w' := by
  have hproper' : ∀ write ∈ writes', write.1 ≠ [] :=
    fun write hmem => hproper write (hperm.mem_iff.mpr hmem)
  cases writes with
  | nil =>
      cases hperm.nil_eq
      exact reordered_of_nil hv h h'
  | cons write others =>
      cases writes' with
      | nil => cases hperm.eq_nil
      | cons write' others' =>
          obtain ⟨p, x⟩ := write
          obtain ⟨q, y⟩ := write'
          obtain ⟨segment, rest, rfl⟩ :=
            List.exists_cons_of_ne_nil (hproper _ List.mem_cons_self)
          obtain ⟨other, more, rfl⟩ :=
            List.exists_cons_of_ne_nil (hproper' _ List.mem_cons_self)
          have hfirst := h.container
          have hfirst' := h'.container
          rcases container_cases_of_two segment other v with
            hsame | ⟨name, rfl, hv'⟩ | ⟨name, rfl, hv'⟩
          · have hwf := wellFormed_container segment hv
            rw [← hsame] at hfirst'
            rcases container_cases segment v with
              ⟨fields, hcontainer⟩ | ⟨items, hcontainer⟩
            · rw [hcontainer] at hfirst hfirst' hwf
              exact reordered_of_object hwf hproper hperm hagree hfirst hfirst'
            · rw [hcontainer] at hfirst hfirst' hwf
              exact reordered_of_array hwf hproper hperm hagree hfirst hfirst'
          · rw [hv'] at hfirst'
            exact absurd (hperm.mem_iff.mp List.mem_cons_self)
              (hfirst'.key_notMem hproper')
          · rw [hv'] at hfirst
            exact absurd (hperm.mem_iff.mpr List.mem_cons_self)
              (hfirst.key_notMem hproper)

/-- Assignments at paths that diverge give the same value in both of two orders,
up to the order of fields. -/
theorem Assigned.reordered (h : Assigned writes v w)
    (h' : Assigned writes' v w') (hv : v.WellFormed)
    (hvalues : ∀ write ∈ writes, write.2.WellFormed)
    (hdiverge : writes.Pairwise fun a b => Diverge a.1 b.1)
    (hperm : writes.Perm writes') :
    Reordered w w' := by
  induction writes, hdiverge using under_induction
    generalizing v w w' writes' with
  | nil =>
      cases hperm.nil_eq
      exact reordered_of_nil hv h h'
  | leaf x =>
      cases List.singleton_perm.mp hperm
      rw [h.eq_of_nil, h'.eq_of_nil]
      exact Reordered.refl x (hvalues _ List.mem_cons_self)
  | node writes hdiverge hproper ih =>
      refine reordered_of_agreeBelow hv hproper hperm ?_ h h'
      intro key part x y hpart hx hy
      refine ih key hx hy hpart ?_ (hperm.filterMap _)
      rintro ⟨rest, z⟩ hwrite
      obtain ⟨segment, -, hmem⟩ := mem_under.mp hwrite
      exact hvalues (segment :: rest, z) hmem

end DocumentStore.Path
