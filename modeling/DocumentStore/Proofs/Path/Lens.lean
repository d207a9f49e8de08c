import DocumentStore.Proofs.Path.Access

/-!
# Reading back what was assigned

Lookup and assignment at one path fit together as one expects. What was assigned
is found again; assigning what is there already changes nothing, not even the
order of fields; and after a second assignment nothing is left of the first.
Whether an assignment succeeds depends on the path and the value, not on what is
assigned.

All of this holds of a single segment first. `Admits` says that a segment can be
written in a container, and the lemmas about it are the laws for one step.
`assign_cons_eq_ok_iff` takes an assignment that succeeds apart into its first
step and the rest, and the laws for paths follow by induction along them. The
containers that are made on the way need no cases of their own: a value that
gives way to an empty container has no parts, and neither has that container.
-/

namespace DocumentStore.Path

variable {segment : Segment} {segments : List Segment} {v w x y part : Value}

/-! ## One segment -/

/-- A segment can be written in a container: any segment in an object, an index
that is not too far past the end in an array. -/
inductive Admits : Segment → Value → Prop
  | object (segment : Segment) (fields : List (String × Value)) :
      Admits segment (.object fields)
  | array (i : Nat) (items : List Value)
      (hgap : i - items.length ≤ greatestGap) :
      Admits (.index i) (.array items)

theorem container_cases (segment : Segment) (v : Value) :
    (∃ fields, container segment v = .object fields) ∨
      ∃ items, container segment v = .array items := by
  cases v with
  | object fields => exact .inl ⟨fields, rfl⟩
  | array items => exact .inr ⟨items, rfl⟩
  | null => cases segment <;> simp [container, Segment.emptyContainer]
  | bool b => cases segment <;> simp [container, Segment.emptyContainer]
  | number n => cases segment <;> simp [container, Segment.emptyContainer]
  | string s => cases segment <;> simp [container, Segment.emptyContainer]

/-- What is checked of a container is whether it admits the segment. -/
theorem check_container_eq_ok_iff :
    check segment (container segment v) = .ok () ↔
      Admits segment (container segment v) := by
  rcases container_cases segment v with ⟨fields, hv⟩ | ⟨items, hv⟩
  · rw [hv]
    exact iff_of_true rfl (.object segment fields)
  · rw [hv]
    cases segment with
    | key name => exact iff_of_false nofun nofun
    | index i =>
        rw [check]
        split
        · next hgap =>
            refine iff_of_false nofun ?_
            rintro (_ | ⟨_, _, hle⟩)
            exact absurd hle (Nat.not_le.mpr hgap)
        · next hgap =>
            exact iff_of_true rfl (.array i items (Nat.not_lt.mp hgap))

/-- A container that is made has no parts, and what gives way to it had none. -/
theorem child?_container (other segment : Segment) (v : Value) :
    child? other (container segment v) = child? other v := by
  cases v with
  | object fields => rfl
  | array items => rfl
  | null => cases segment <;> cases other <;> rfl
  | bool b => cases segment <;> cases other <;> rfl
  | number n => cases segment <;> cases other <;> rfl
  | string s => cases segment <;> cases other <;> rfl

theorem admits_of_child? (h : child? segment v = some part) :
    Admits segment v := by
  cases v with
  | object fields => exact .object segment fields
  | array items =>
      cases segment with
      | key name => cases h
      | index i =>
          obtain ⟨hlt, -⟩ := List.getElem?_eq_some_iff.mp h
          exact .array i items (by omega)
  | null => cases h
  | bool b => cases h
  | number n => cases h
  | string s => cases h

/-- The elements after a write to an array: the new one in its place, nulls
between it and the end there was. -/
theorem getElem?_pad_set (items : List Value) (i j : Nat) (part : Value) :
    ((items ++ List.replicate (i + 1 - items.length) Value.null).set i part)[j]? =
      if i = j then some part
      else if j < items.length then items[j]?
      else if j < i then some .null
      else none := by
  have hlength : i <
      (items ++ List.replicate (i + 1 - items.length) Value.null).length := by
    rw [List.length_append, List.length_replicate]
    omega
  rw [List.getElem?_set, if_pos hlength]
  split
  · rfl
  · next hne =>
      rw [List.getElem?_append]
      split
      · rfl
      · rw [List.getElem?_replicate]
        split
        · rw [if_pos (by omega)]
        · rw [if_neg (by omega)]

namespace Admits

theorem container_eq (h : Admits segment v) : container segment v = v := by
  cases h with
  | object segment fields => rfl
  | array i items hgap => rfl

theorem put (h : Admits segment v) (part : Value) :
    Admits segment (put segment part v) := by
  cases h with
  | object segment fields => exact .object segment _
  | array i items hgap =>
      refine .array i _ ?_
      rw [List.length_set, List.length_append, List.length_replicate]
      omega

theorem child?_put (h : Admits segment v) (part : Value) :
    child? segment (Path.put segment part v) = some part := by
  cases h with
  | object segment fields => exact Fields.get?_insert_self _ _ _
  | array i items hgap =>
      exact (getElem?_pad_set items i i part).trans (if_pos rfl)

theorem put_put (h : Admits segment v) (x y : Value) :
    Path.put segment y (Path.put segment x v) = Path.put segment y v := by
  cases h with
  | object segment fields =>
      exact congrArg Value.object (Fields.insert_insert _ _ _ _)
  | array i items hgap =>
      refine congrArg Value.array (List.ext_getElem? fun j => ?_)
      rw [getElem?_pad_set, getElem?_pad_set, getElem?_pad_set, List.length_set,
        List.length_append, List.length_replicate]
      grind

end Admits

theorem put_child? (h : child? segment v = some part) :
    put segment part v = v := by
  cases admits_of_child? h with
  | object segment fields =>
      exact congrArg Value.object (Fields.insert_of_get? h)
  | array i items hgap =>
      refine congrArg Value.array (List.ext_getElem? fun j => ?_)
      have hpart : items[i]? = some part := h
      obtain ⟨hlt, -⟩ := List.getElem?_eq_some_iff.mp hpart
      rw [getElem?_pad_set]
      split
      · next hij => rw [← hij, hpart]
      · split
        · rfl
        · rw [if_neg (by omega), List.getElem?_eq_none (by omega)]

/-! ## Along a path -/

theorem assign_cons_of_admits {rest : List Segment} (x : Value)
    (h : Admits segment (container segment v)) :
    assign (segment :: rest) x v =
      (put segment (assign rest x ((child? segment v).getD .null)).1
          (container segment v),
        (assign rest x ((child? segment v).getD .null)).2) := by
  rw [assign, check_container_eq_ok_iff.mpr h, child?_container]

/-- An assignment that succeeds, taken apart into its first step and the
rest. -/
theorem assign_cons_eq_ok_iff {rest : List Segment} :
    assign (segment :: rest) x v = (w, .ok ()) ↔
      Admits segment (container segment v) ∧
        ∃ part, assign rest x ((child? segment v).getD .null) = (part, .ok ()) ∧
          w = put segment part (container segment v) := by
  refine ⟨?_, ?_⟩
  · intro h
    have hadmits : Admits segment (container segment v) := by
      rw [← check_container_eq_ok_iff]
      rw [assign] at h
      dsimp only at h
      split at h
      · cases h
      · next hcheck => exact hcheck
    rw [assign_cons_of_admits x hadmits, Prod.mk.injEq] at h
    exact ⟨hadmits, _, Prod.ext rfl h.2, h.1.symm⟩
  · rintro ⟨hadmits, part, hpart, rfl⟩
    rw [assign_cons_of_admits x hadmits, hpart]

theorem lookup_of_assign (h : assign segments x v = (w, .ok ())) :
    lookup segments w = some x := by
  induction segments generalizing v w with
  | nil =>
      cases h
      rfl
  | cons segment rest ih =>
      obtain ⟨hadmits, part, hpart, rfl⟩ := assign_cons_eq_ok_iff.mp h
      rw [lookup, hadmits.child?_put, Option.bind_some, ih hpart]

theorem assign_of_lookup (h : lookup segments v = some x) :
    assign segments x v = (v, .ok ()) := by
  induction segments generalizing v with
  | nil =>
      cases h
      rfl
  | cons segment rest ih =>
      obtain ⟨part, hpart, hrest⟩ := Option.bind_eq_some_iff.mp h
      have hadmits := admits_of_child? hpart
      refine assign_cons_eq_ok_iff.mpr ?_
      rw [hadmits.container_eq, hpart]
      exact ⟨hadmits, part, ih hrest, (put_child? hpart).symm⟩

theorem outcome_assign (segments : List Segment) (x y v : Value) :
    (assign segments x v).2 = (assign segments y v).2 := by
  induction segments generalizing v with
  | nil => rfl
  | cons segment rest ih =>
      rw [assign, assign]
      dsimp only
      split
      · rfl
      · exact ih _

/-- Where something is, anything can be assigned. -/
theorem exists_assign_of_lookup (h : lookup segments v = some x) (y : Value) :
    ∃ w, assign segments y v = (w, .ok ()) := by
  refine ⟨(assign segments y v).1, Prod.ext rfl ?_⟩
  rw [outcome_assign segments y x v, assign_of_lookup h]

theorem assign_assign (y : Value) (h : assign segments x v = (w, .ok ())) :
    assign segments y w = assign segments y v := by
  induction segments generalizing v w with
  | nil => rfl
  | cons segment rest ih =>
      obtain ⟨hadmits, part, hpart, rfl⟩ := assign_cons_eq_ok_iff.mp h
      -- The second assignment finds the container that the first one made or
      -- padded.
      have hput := hadmits.put part
      have hagain : Admits segment
          (container segment (put segment part (container segment v))) := by
        rwa [hput.container_eq]
      rw [assign_cons_of_admits y hagain, assign_cons_of_admits y hadmits,
        hput.container_eq, hadmits.child?_put, Option.getD_some, ih hpart,
        hadmits.put_put]

/-! ## The laws -/

variable {p : Path}

theorem exists_set_eq_ok_iff :
    (∃ w, p.set x v = .ok w) ↔ (assign p.segments x v).2 = .ok () := by
  simp only [set_eq_ok_iff]
  refine ⟨?_, ?_⟩
  · rintro ⟨w, h⟩
    rw [h]
  · intro h
    exact ⟨_, Prod.ext rfl h⟩

/-- Where one value cannot be assigned, no other one can, for the same
reason. -/
theorem set_eq_error {e : Error} (y : Value) (h : p.set x v = .error e) :
    p.set y v = .error e := by
  rw [set] at h
  split at h
  · cases h
  · next hassign =>
      have houtcome := outcome_assign p.segments y x v
      rw [hassign, Except.error.inj h] at houtcome
      rw [set]
      split
      · next hok =>
          rw [hok] at houtcome
          cases houtcome
      · next herror =>
          rw [herror] at houtcome
          cases houtcome
          rfl

/-- What was assigned at a path is found there. To assign what is found there
succeeds and gives the same value, to the order of its fields. Whether an
assignment succeeds does not depend on what is assigned, and after a second one
at the same path the first one has left no trace. -/
theorem set_and_get (p : Path) (v x y : Value) :
    (∀ w, p.set x v = .ok w → p.get w = some x) ∧
      (p.get v = some x → p.set x v = .ok v) ∧
      ((∃ w, p.set x v = .ok w) ↔ ∃ w, p.set y v = .ok w) ∧
      ∀ w, p.set x v = .ok w → p.set y w = p.set y v := by
  refine ⟨?_, ?_, ?_, ?_⟩
  · intro w hset
    exact lookup_of_assign (set_eq_ok_iff.mp hset)
  · intro hget
    exact set_eq_ok_iff.mpr (assign_of_lookup hget)
  · rw [exists_set_eq_ok_iff, exists_set_eq_ok_iff,
      outcome_assign p.segments x y v]
  · intro w hset
    rw [set, set, assign_assign y (set_eq_ok_iff.mp hset)]

/-- A document with one tag. -/
def tagged (tag : String) : Value := .object [("tags", .array [.string tag])]

def firstTag : Path := ⟨[.key "tags", .index 0], List.cons_ne_nil _ _⟩

theorem set_and_get_firstTag :
    firstTag.get (tagged "a") = some (.string "a") ∧
      firstTag.set (.string "a") (tagged "a") = .ok (tagged "a") ∧
      firstTag.set (.string "b") (tagged "a") = .ok (tagged "b") ∧
      firstTag.get (tagged "b") = some (.string "b") ∧
      firstTag.set (.string "a") (tagged "b") =
        firstTag.set (.string "a") (tagged "a") := by
  have hget : firstTag.get (tagged "a") = some (.string "a") := rfl
  have hset : firstTag.set (.string "b") (tagged "a") = .ok (tagged "b") := rfl
  obtain ⟨-, hsame, -, -⟩ :=
    set_and_get firstTag (tagged "a") (.string "a") (.string "a")
  obtain ⟨hfound, -, -, hagain⟩ :=
    set_and_get firstTag (tagged "a") (.string "b") (.string "a")
  exact ⟨hget, hsame hget, hset, hfound _ hset, hagain _ hset⟩

end DocumentStore.Path
