import DocumentStore.Proofs.Path.Frame

/-!
# Taking out what a path leads to

A removal gives what lookup gives and leaves the value without it. It is one
walk, `takeOut`, which ends where a segment leads nowhere (`takeOut_eq`).

Only the last segment takes something away: the field of an object, while an
element of an array gives way to null. Before it, each segment puts back the
part that it leads to, changed (`erase_of_child?`). So a removal is an
assignment to the parent (`assign_erase`), and what it leaves at its own path
and what comes of assigning there again are read off from the laws of
assignment. That an assignment is a frame would not do for other paths, since it
allows for padding and a removal never pads: `lookup_erase_of_diverge` is an
induction of its own.
-/

namespace DocumentStore.Path

variable {segment other last : Segment} {rest parents segments q : List Segment}
  {v w x part parent : Value}

/-! ## One segment -/

theorem lookup_singleton (segment : Segment) (v : Value) :
    lookup [segment] v = child? segment v := by
  rw [lookup]
  cases child? segment v <;> rfl

theorem erase_of_child?_eq_none (h : child? segment v = none) :
    erase (segment :: rest) v = v := by
  cases v with
  | object fields =>
      have hkey : segment.text ∉ Fields.keys fields :=
        Fields.get?_eq_none_iff.mp h
      cases rest with
      | nil => exact congrArg Value.object (Fields.erase_of_notMem hkey)
      | cons next rest =>
          exact congrArg Value.object (Fields.modify_of_notMem hkey)
  | array items =>
      cases segment with
      | key name => cases rest <;> rfl
      | index i =>
          have hlength : items.length ≤ i := List.getElem?_eq_none_iff.mp h
          cases rest with
          | nil => exact congrArg Value.array (List.set_eq_of_length_le hlength)
          | cons next rest =>
              exact congrArg Value.array (List.modify_eq_self hlength)
  | null => cases rest <;> rfl
  | bool b => cases rest <;> rfl
  | number n => cases rest <;> rfl
  | string s => cases rest <;> rfl

/-- A segment before the last puts back the part that it leads to, without what
the others lead to. -/
theorem erase_of_child? (hrest : rest ≠ []) (h : child? segment v = some part) :
    erase (segment :: rest) v = put segment (erase rest part) v := by
  obtain ⟨next, rest, rfl⟩ := List.exists_cons_of_ne_nil hrest
  cases admits_of_child? h with
  | object segment fields =>
      exact congrArg Value.object (Fields.modify_of_get? h)
  | array i items hgap =>
      have hpart : items[i]? = some part := h
      obtain ⟨hlt, -⟩ := List.getElem?_eq_some_iff.mp hpart
      refine congrArg Value.array (List.ext_getElem? fun j => ?_)
      rw [getElem?_pad_set, List.getElem?_modify]
      split
      · next hij =>
          subst hij
          rw [hpart]
          rfl
      · split
        · exact Option.map_id'
        · rw [if_neg (by omega), List.getElem?_eq_none (by omega)]
          rfl

/-- What is put where something was does not show elsewhere, for nothing is
padded. -/
theorem child?_put_of_child? (h : child? segment v = some part) (x : Value)
    (hne : segment.text ≠ other.text) :
    child? other (put segment x v) = child? other v := by
  cases admits_of_child? h with
  | object segment fields => exact Fields.get?_insert_of_ne hne
  | array i items hgap =>
      cases other with
      | key name => rfl
      | index j =>
          have hij : i ≠ j := by
            rintro rfl
            exact hne rfl
          obtain ⟨hlt, -⟩ := List.getElem?_eq_some_iff.mp h
          refine (getElem?_pad_set items i j x).trans ?_
          rw [if_neg hij]
          split
          · rfl
          · next hlength =>
              rw [if_neg (by omega)]
              exact (List.getElem?_eq_none (Nat.not_lt.mp hlength)).symm

theorem child?_erase_of_text_ne (hne : segment.text ≠ other.text) (v : Value) :
    child? other (erase [segment] v) = child? other v := by
  cases v with
  | object fields => exact Fields.get?_erase_of_ne hne
  | array items =>
      cases segment with
      | key name => rfl
      | index i =>
          cases other with
          | key name => rfl
          | index j =>
              have hij : i ≠ j := by
                rintro rfl
                exact hne rfl
              exact List.getElem?_set_ne hij
  | null => rfl
  | bool b => rfl
  | number n => rfl
  | string s => rfl

/-! ## One walk -/

/-- Walk along the segments, take out what the last of them leads to and put
back on the way what is left. Where a segment leads nowhere there is nothing to
take. -/
def takeOut : List Segment → Value → Option Value × Value
  | [], v => (none, v)
  | [segment], v => (child? segment v, erase [segment] v)
  | segment :: next :: rest, v =>
      match child? segment v with
      | none => (none, v)
      | some part =>
          let (taken, left) := takeOut (next :: rest) part
          (taken, put segment left v)

theorem takeOut_eq (hne : segments ≠ []) (v : Value) :
    takeOut segments v = (lookup segments v, erase segments v) := by
  induction segments generalizing v with
  | nil => exact absurd rfl hne
  | cons segment rest ih =>
      cases rest with
      | nil =>
          rw [takeOut, lookup_singleton]
      | cons next rest =>
          rw [takeOut, lookup]
          cases hchild : child? segment v with
          | none => rw [erase_of_child?_eq_none hchild, Option.bind_none]
          | some part =>
              dsimp only
              rw [ih (List.cons_ne_nil _ _),
                erase_of_child? (List.cons_ne_nil _ _) hchild, Option.bind_some]

theorem erase_of_lookup_eq_none (h : lookup segments v = none) :
    erase segments v = v := by
  induction segments generalizing v with
  | nil => rfl
  | cons segment rest ih =>
      cases hchild : child? segment v with
      | none => exact erase_of_child?_eq_none hchild
      | some part =>
          rw [lookup, hchild, Option.bind_some] at h
          have hrest : rest ≠ [] := by
            rintro rfl
            cases h
          rw [erase_of_child? hrest hchild, ih h, put_child? hchild]

/-! ## Other paths -/

/-- A removal does not show at a path that diverges from it. -/
theorem lookup_erase_of_diverge (hdiverge : Diverge segments q) (v : Value) :
    lookup q (erase segments v) = lookup q v := by
  induction segments generalizing q v with
  | nil => exact absurd hdiverge (not_diverge_nil_left q)
  | cons segment rest ih =>
      cases q with
      | nil => exact absurd hdiverge (not_diverge_nil_right _)
      | cons other more =>
          cases hchild : child? segment v with
          | none => rw [erase_of_child?_eq_none hchild]
          | some part =>
              rw [lookup, lookup]
              rcases diverge_cons_iff.mp hdiverge with hne | ⟨htext, hmore⟩
              · cases rest with
                | nil => rw [child?_erase_of_text_ne hne]
                | cons next rest =>
                    rw [erase_of_child? (List.cons_ne_nil _ _) hchild,
                      child?_put_of_child? hchild _ hne]
              · have hrest : rest ≠ [] := by
                  rintro rfl
                  exact not_diverge_nil_left _ hmore
                rw [erase_of_child? hrest hchild]
                rcases (admits_of_child? hchild).child?_put_of_text_eq
                  (erase rest part) htext with
                  ⟨hsome, hsame⟩ | ⟨hnone, hbefore⟩
                · rw [hsome, hsame, hchild, Option.bind_some,
                    Option.bind_some, ih hmore]
                · rw [hnone, hbefore]

/-! ## The parent -/

/-- To remove something below a part is to assign what the removal leaves of
it. -/
theorem assign_erase (hrest : rest ≠ []) (h : lookup parents v = some part) :
    assign parents (erase rest part) v =
      (erase (parents ++ rest) v, .ok ()) := by
  induction parents generalizing v with
  | nil =>
      cases h
      rfl
  | cons segment more ih =>
      obtain ⟨child, hchild, hmore⟩ := Option.bind_eq_some_iff.mp h
      have hadmits := admits_of_child? hchild
      refine assign_cons_eq_ok_iff.mpr ?_
      rw [hadmits.container_eq, hchild, Option.getD_some]
      refine ⟨hadmits, _, ih hmore, ?_⟩
      rw [List.cons_append, erase_of_child? (by simp [hrest]) hchild]

/-- To assign something below a part is to assign what the part becomes. -/
theorem assign_append (h : lookup parents v = some part) (x : Value) :
    assign (parents ++ rest) x v =
      ((assign parents (assign rest x part).1 v).1,
        (assign rest x part).2) := by
  induction parents generalizing v with
  | nil =>
      cases h
      rfl
  | cons segment more ih =>
      obtain ⟨child, hchild, hmore⟩ := Option.bind_eq_some_iff.mp h
      have hadmits := admits_of_child? hchild
      rw [← hadmits.container_eq] at hadmits
      rw [List.cons_append, assign_cons_of_admits x hadmits,
        assign_cons_of_admits _ hadmits, hchild, Option.getD_some, ih hmore]

/-- What a removal leaves at its path, and what comes of assigning there,
depends on the parent alone. -/
theorem removed_below (last : Segment) (h : lookup parents v = some parent)
    (x : Value) :
    lookup (parents ++ [last]) (erase (parents ++ [last]) v) =
      child? last (erase [last] parent) ∧
      assign (parents ++ [last]) x (erase (parents ++ [last]) v) =
        ((assign parents (assign [last] x (erase [last] parent)).1 v).1,
          (assign [last] x (erase [last] parent)).2) := by
  have herase : assign parents (erase [last] parent) v =
      (erase (parents ++ [last]) v, .ok ()) :=
    assign_erase (List.cons_ne_nil _ _) h
  have hparent := lookup_of_assign herase
  refine ⟨?_, ?_⟩
  · rw [lookup_append, hparent, Option.bind_some, lookup_singleton]
  · rw [assign_append hparent, assign_assign _ herase]

/-- An element gives way to null. -/
theorem erase_index {items : List Value} {i : Nat} (h : items[i]? = some x) :
    erase [.index i] (.array items) = put (.index i) .null (.array items) := by
  obtain ⟨hlt, -⟩ := List.getElem?_eq_some_iff.mp h
  have hpad : i + 1 - items.length = 0 := by omega
  rw [put, hpad, List.replicate_zero, List.append_nil]
  rfl

/-- The values are the same, but for the order of fields in the object to which
the segments lead. -/
def ReorderedAt (segments : List Segment) (v w : Value) : Prop :=
  ∃ fields fields', lookup segments v = some (.object fields) ∧
    fields.Perm fields' ∧
    assign segments (.object fields') v = (w, .ok ())

/-- If the parent is an object the field is gone, and goes last if it is
assigned again. -/
theorem removed_field {fields : List (String × Value)} (hv : v.WellFormed)
    (h : lookup parents v = some (.object fields))
    (hfield : child? last (.object fields) = some x) :
    lookup (parents ++ [last]) (erase (parents ++ [last]) v) = none ∧
      ∃ w, assign (parents ++ [last]) x (erase (parents ++ [last]) v) =
        (w, .ok ()) ∧
        ReorderedAt parents v w := by
  obtain ⟨hkeys, -⟩ :=
    Value.wellFormed_object_iff.mp (wellFormed_of_lookup parents hv h)
  obtain ⟨hlookup, hassign⟩ := removed_below last h x
  have hlast : assign [last] x (erase [last] (.object fields)) =
      (.object (Fields.erase last.text fields ++ [(last.text, x)]),
        .ok ()) := by
    rw [erase, assign_object, below, assign, Fields.insert_erase x hkeys]
  obtain ⟨w, hw⟩ :=
    exists_assign_of_lookup h
      (.object (Fields.erase last.text fields ++ [(last.text, x)]))
  rw [hlast, hw] at hassign
  exact ⟨hlookup.trans (Fields.get?_erase_self last.text hkeys), w, hassign,
    fields, _, h,
    Fields.perm_erase_append hfield, hw⟩

/-- If the parent is an array the element is null, and is back in its place if
it is assigned again. -/
theorem removed_element {items : List Value}
    (h : lookup parents v = some (.array items))
    (helement : child? last (.array items) = some x) :
    lookup (parents ++ [last]) (erase (parents ++ [last]) v) = some .null ∧
      assign (parents ++ [last]) x (erase (parents ++ [last]) v) =
        (v, .ok ()) := by
  cases last with
  | key name => cases helement
  | index i =>
      obtain ⟨hlookup, hassign⟩ := removed_below (.index i) h x
      have hadmits := admits_of_child? helement
      have hput := hadmits.put .null
      rw [erase_index helement] at hlookup hassign
      have hlast : assign [.index i] x (put (.index i) .null (.array items)) =
          (.array items, .ok ()) := by
        rw [assign_cons_of_admits x (by rwa [hput.container_eq]),
          hput.container_eq, assign, hadmits.put_put, put_child? helement]
      rw [hlast, assign_of_lookup h] at hassign
      exact ⟨hlookup.trans (hadmits.child?_put .null), hassign⟩

/-! ## The law -/

/-- A removal is one walk, and gives what is found at its path. If nothing is,
it changes nothing. Otherwise a field is gone and an element is null afterwards,
and what was taken out can be assigned again: then the value is what it was, but
that the field goes last. Nothing shows at paths that diverge. -/
theorem remove_and_restore {p : Path} {removed : Option Value} {left : Value}
    (hv : v.WellFormed) (h : p.remove v = (removed, left)) :
    takeOut p.segments v = (removed, left) ∧ removed = p.get v ∧
      (p.get v = none → left = v) ∧
      (∀ x, p.get v = some x →
        (∃ fields w, lookup p.segments.dropLast v = some (.object fields) ∧
            p.get left = none ∧
          p.set x left = .ok w ∧ ReorderedAt p.segments.dropLast v w) ∨
        ∃ items, lookup p.segments.dropLast v = some (.array items) ∧
          p.get left = some .null ∧
          p.set x left = .ok v) ∧
      ∀ q : Path, Diverge p.segments q.segments → q.get left = q.get v := by
  cases h
  refine ⟨takeOut_eq p.nonempty v, rfl, erase_of_lookup_eq_none, ?_,
    fun q hdiverge => lookup_erase_of_diverge hdiverge v⟩
  intro x hx
  have hsplit : p.segments =
      p.segments.dropLast ++ [p.segments.getLast p.nonempty] :=
    (List.dropLast_concat_getLast p.nonempty).symm
  simp only [set_eq_ok_iff, get] at hx ⊢
  generalize p.segments.getLast p.nonempty = last at hsplit
  generalize p.segments.dropLast = parents at hsplit ⊢
  rw [hsplit] at hx ⊢
  rw [lookup_append] at hx
  obtain ⟨parent, hparent, hlast⟩ := Option.bind_eq_some_iff.mp hx
  rw [lookup_singleton] at hlast
  cases admits_of_child? hlast with
  | object last fields =>
      obtain ⟨hgone, w, hw, hreordered⟩ := removed_field hv hparent hlast
      exact .inl ⟨fields, w, hparent, hgone, hw, hreordered⟩
  | array i items hgap =>
      obtain ⟨hnull, hback⟩ := removed_element hparent hlast
      exact .inr ⟨items, hparent, hnull, hback⟩

def namePath : Path := ⟨[.key "name"], List.cons_ne_nil _ _⟩

/-- A document with a name and one tag. -/
def signed : Value :=
  .object [("name", .string "n"), ("tags", .array [.string "a"])]

/-- The name is removed from an object and the tag from an array. The name comes
back behind the tags, and the tag in its place. -/
theorem remove_and_restore_signed :
    signed.WellFormed ∧
      (∃ left, namePath.remove signed = (some (.string "n"), left) ∧
          namePath.get left = none ∧
        firstTag.get left = firstTag.get signed ∧
        ∃ w, namePath.set (.string "n") left = .ok w ∧
          ReorderedAt [] signed w) ∧
      ∃ left, firstTag.remove signed = (some (.string "a"), left) ∧
        firstTag.get left = some .null ∧ namePath.get left =
          namePath.get signed ∧
        firstTag.set (.string "a") left = .ok signed := by
  have hwf : signed.WellFormed := by
    simp [signed, Value.WellFormed, Value.FieldsWellFormed,
      Value.ItemsWellFormed, Fields.keys]
  have hdiverge : Diverge namePath.segments firstTag.segments :=
    diverge_cons_iff.mpr (.inl (by decide))
  have hdiverge' : Diverge firstTag.segments namePath.segments :=
    diverge_cons_iff.mpr (.inl (by decide))
  refine ⟨hwf, ⟨_, rfl, ?_⟩, _, rfl, ?_⟩
  · obtain ⟨-, -, -, hback, hothers⟩ :=
      remove_and_restore (p := namePath) hwf rfl
    rcases hback _ rfl with
      ⟨fields, w, -, hgone, hset, hreordered⟩ | ⟨items, hparent, -⟩
    · exact ⟨hgone, hothers firstTag hdiverge, w, hset, hreordered⟩
    · cases hparent
  · obtain ⟨-, -, -, hback, hothers⟩ :=
      remove_and_restore (p := firstTag) hwf rfl
    rcases hback _ rfl with ⟨fields, w, hparent, -⟩ | ⟨items, -, hnull, hset⟩
    · cases hparent
    · exact ⟨hnull, hothers namePath hdiverge', hset⟩

end DocumentStore.Path
