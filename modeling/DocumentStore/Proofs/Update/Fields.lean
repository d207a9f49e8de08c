import DocumentStore.Proofs.Path.Several
import DocumentStore.Proofs.Update

/-!
# Updates with one operator

An update with one operator applies it to its fields one after another, so what
each application keeps holds in the end (`applyFields_keeps`).

With `$set` that is assigning at several paths, those that the keys are
(`applyFields_set_eq_ok`). What is at other paths stays there, and if the paths
diverge from each other their order makes no difference but for the order of
fields (`set_in_any_order`).
-/

namespace DocumentStore.Update

variable {now : Instant} {op : Operator}
  {fields assigned : List (String × Value)}
  {path : String} {operand doc doc' v : Value}

/-- An update with one operator. -/
def ofOperator (op : Operator) (fields : List (String × Value)) : Value :=
  .object [(op.name, .object fields)]

theorem isOperator_name (op : Operator) : Fields.isOperator op.name = true := by
  cases op <;> decide +kernel

theorem apply_ofOperator (hdoc : doc.isObject = true) :
    apply now (ofOperator op fields) doc = applyFields now op fields doc := by
  have hoperators : hasOperators (ofOperator op fields) = true := by
    rw [ofOperator, hasOperators, List.any_cons]
    dsimp only
    rw [isOperator_name, Bool.true_or]
  rw [ofOperator] at hoperators ⊢
  rw [apply, hdoc, Bool.not_true, if_neg Bool.false_ne_true, if_pos hoperators,
    applyOperators, Operator.ofName?_name]
  dsimp only
  cases applyFields now op fields doc <;> rfl

theorem apply_field (hdoc : doc.isObject = true) :
    apply now (ofOperator op [(path, operand)]) doc =
      applyField now op path operand doc := by
  rw [apply_ofOperator hdoc, applyFields]
  exact bind_pure _

/-- All operators but two write a new value, if they have one. -/
theorem applyField_of_newValue (hunset : op ≠ .unset) (hrename : op ≠ .rename) :
    applyField now op path operand doc = Path.parse path >>= fun field =>
      newValue now op path operand (field.get doc) >>= fun
        | some new => field.set new doc
        | none => .ok doc := by
  cases op with
  | unset => exact absurd rfl hunset
  | rename => exact absurd rfl hrename
  | _ => rfl

theorem isObject_of_apply {spec : Value} (h : apply now spec doc = .ok doc') :
    doc.isObject = true := by
  unfold apply at h
  split at h
  · cases h
  · next hdoc => simpa using hdoc

/-- What each application of an operator keeps holds after all of them. -/
theorem applyFields_keeps {P : Value → Prop}
    (hstep : ∀ field ∈ fields, ∀ before after,
      applyField now op field.1 field.2 before = .ok after →
      P before → P after) (h : applyFields now op fields doc = .ok doc') (hdoc :
      P doc) : P doc' := by
  induction fields generalizing doc with
  | nil =>
      cases h
      exact hdoc
  | cons field rest ih =>
      obtain ⟨hfirst, hothers⟩ := List.forall_mem_cons.mp hstep
      obtain ⟨changed, hchanged, h⟩ := bind_eq_ok.mp h
      exact ih hothers h (hfirst doc changed hchanged hdoc)

/-! ## Setting fields -/

/-- Assign fields. -/
def setting (assigned : List (String × Value)) : Value :=
  .object [("$set", .object assigned)]

theorem applyField_set (key : String) (v doc : Value) :
    applyField now .set key v doc = Path.parse key >>= fun path =>
      path.set v doc := rfl

theorem apply_setting (hdoc : doc.isObject = true) :
    apply now (setting assigned) doc = applyFields now .set assigned doc := by
  show apply now (ofOperator .set assigned) doc = _
  exact apply_ofOperator hdoc

theorem isObject_applyFields_set
    (h : applyFields now .set assigned doc = .ok doc')
    (hdoc : doc.isObject = true) : doc'.isObject = true := by
  refine applyFields_keeps (P := fun doc => doc.isObject = true) ?_ h hdoc
  intro new _ before after hchanged hbefore
  rw [applyField_set] at hchanged
  obtain ⟨p, -, hset⟩ := bind_eq_ok.mp hchanged
  exact Path.isObject_set hbefore hset

/-- What is at a path of an object stays there if all that is assigned diverges
from it. -/
theorem get_applyFields_set {path : Path}
    (hdiverge : ∀ new ∈ assigned, ∀ p, Path.parse new.1 = .ok p →
      Path.Diverge p.segments path.segments)
    (h : applyFields now .set assigned doc = .ok doc')
    (hget : path.get doc = some v) :
    path.get doc' = some v := by
  refine applyFields_keeps (P := fun doc => path.get doc = some v) ?_ h hget
  intro new hnew before after hchanged hbefore
  rw [applyField_set] at hchanged
  obtain ⟨p, hp, hset⟩ := bind_eq_ok.mp hchanged
  have hkept := Path.kept_of_diverge (Path.set_eq_ok_iff.mp hset)
    (hdiverge new hnew p hp)
  exact (hkept.resolve_right fun hnone =>
    Option.some_ne_none v (hbefore.symm.trans hnone.1)).trans hbefore

/-- The segments that a key names, none if it is no path. -/
def segmentsOf (key : String) : List Segment :=
  match Path.parse key with
  | .ok path => path.segments
  | .error _ => []

theorem segmentsOf_eq {key : String} {path : Path}
    (h : Path.parse key = .ok path) :
    segmentsOf key = path.segments := by
  rw [segmentsOf, h]

/-- The assignment that a field stands for. -/
def assignment (field : String × Value) : List Segment × Value :=
  (segmentsOf field.1, field.2)

theorem applyFields_set_eq_ok : applyFields now .set assigned doc = .ok doc' ↔
    (∀ new ∈ assigned, ∃ p, Path.parse new.1 = .ok p) ∧
      Path.Assigned (assigned.map assignment) doc doc' := by
  induction assigned generalizing doc with
  | nil =>
      refine ⟨?_, ?_⟩
      · intro h
        cases h
        exact ⟨List.forall_mem_nil _, .nil _⟩
      · rintro ⟨-, h⟩
        cases h
        rfl
  | cons new rest ih =>
      rw [applyFields, bind_eq_ok, List.forall_mem_cons, List.map_cons]
      simp only [ih, applyField_set, bind_eq_ok, Path.set_eq_ok_iff]
      refine ⟨?_, ?_⟩
      · rintro ⟨changed, ⟨p, hp, hset⟩, hpaths, hrest⟩
        exact ⟨⟨⟨p, hp⟩, hpaths⟩, .cons (by rwa [segmentsOf_eq hp]) hrest⟩
      · rintro ⟨⟨⟨p, hp⟩, hpaths⟩, h⟩
        cases h with
        | cons hset hrest =>
            exact ⟨_, ⟨p, hp, by rwa [segmentsOf_eq hp] at hset⟩, hpaths, hrest⟩

/-- The paths of two fields diverge. -/
def DivergingKeys (a b : String × Value) : Prop :=
  ∀ p q, Path.parse a.1 = .ok p → Path.parse b.1 = .ok q →
    Path.Diverge p.segments q.segments

theorem divergingKeys_of_segmentsOf {a b : String × Value}
    (h : Path.Diverge (segmentsOf a.1) (segmentsOf b.1)) :
    DivergingKeys a b := by
  intro p q hp hq
  rwa [segmentsOf_eq hp, segmentsOf_eq hq] at h

theorem pairwise_assignments
    (hpaths : ∀ new ∈ assigned, ∃ p, Path.parse new.1 = .ok p)
    (h : assigned.Pairwise DivergingKeys) :
    (assigned.map assignment).Pairwise fun a b => Path.Diverge a.1 b.1 := by
  refine List.pairwise_map.mpr (h.imp_of_mem ?_)
  intro a b ha hb hdiverge
  obtain ⟨p, hp⟩ := hpaths a ha
  obtain ⟨q, hq⟩ := hpaths b hb
  rw [assignment, assignment, segmentsOf_eq hp, segmentsOf_eq hq]
  exact hdiverge p q hp hq

/-- Fields whose paths diverge from each other can be set in any order: if two
orders both succeed, they give the same document up to the order of fields. Each
path then leads to its value, and setting the same fields again gives the very
same document. -/
theorem set_in_any_order {later : Instant} {assigned' : List (String × Value)}
    {other : Value} (hdoc : doc.WellFormed)
    (hvalues : ∀ new ∈ assigned, new.2.WellFormed)
    (hdiverge : assigned.Pairwise DivergingKeys)
    (hperm : assigned.Perm assigned')
    (h : apply now (setting assigned) doc = .ok doc')
    (h' : apply later (setting assigned') doc = .ok other) :
    Value.Reordered doc' other ∧
      (∀ new ∈ assigned, ∃ p, Path.parse new.1 = .ok p ∧
        p.get doc' = some new.2 ∧ p.get other = some new.2) ∧
      ∀ again, apply again (setting assigned) doc' = .ok doc' := by
  have hobject := isObject_of_apply h
  rw [apply_setting hobject] at h h'
  have hobject' : doc'.isObject = true := isObject_applyFields_set h hobject
  obtain ⟨hpaths, hassigned⟩ := applyFields_set_eq_ok.mp h
  obtain ⟨-, hassigned'⟩ := applyFields_set_eq_ok.mp h'
  have hpairwise := pairwise_assignments hpaths hdiverge
  have hmap := hperm.map assignment
  have hpairwise' := hmap.pairwise hpairwise Path.Diverge.symm
  have hread : ∀ write ∈ assigned.map assignment,
      Path.lookup write.1 doc' = some write.2 :=
    fun write hwrite => hassigned.lookup_eq hpairwise hwrite
  refine ⟨hassigned.reordered hassigned' hdoc
    (List.forall_mem_map.mpr hvalues) hpairwise hmap, ?_, ?_⟩
  · intro new hnew
    obtain ⟨p, hp⟩ := hpaths new hnew
    have hmem : assignment new ∈ assigned.map assignment :=
      List.mem_map_of_mem hnew
    have hnow := hread _ hmem
    have hother := hassigned'.lookup_eq hpairwise' (hmap.mem_iff.mp hmem)
    rw [assignment, segmentsOf_eq hp] at hnow hother
    exact ⟨p, hp, hnow, hother⟩
  · intro again
    rw [apply_setting hobject', applyFields_set_eq_ok]
    exact ⟨hpaths, Path.assigned_self hread⟩

def someTime : Instant := ⟨0, 1, by decide⟩

/-- A count, a list that is new, and two more tags, the far one first. -/
def retagging : List (String × Value) :=
  [("count", .ofInt 3), ("labels.0", .string "x"), ("tags.2", .string "c"),
    ("tags[1]", .string "b")]

/-- The same fields, the near tag first. -/
def retaggingInOrder : List (String × Value) :=
  [("labels.0", .string "x"), ("tags[1]", .string "b"), ("tags.2", .string "c"),
    ("count", .ofInt 3)]

/-- What both make of a document with one tag, in the order of the first. -/
def retagged : Value :=
  .object [("tags", .array [.string "a", .string "b", .string "c"]),
    ("count", .ofInt 3), ("labels", .array [.string "x"])]

theorem set_in_any_order_retagging :
    ((Path.tagged "a").WellFormed ∧ (∀ new ∈ retagging, new.2.WellFormed) ∧
        retagging.Pairwise DivergingKeys ∧ retagging.Perm retaggingInOrder) ∧
      apply someTime (setting retagging) (Path.tagged "a") = .ok retagged ∧
      ∃ other, apply someTime (setting retaggingInOrder) (Path.tagged "a") =
        .ok other ∧
        other ≠ retagged ∧ Value.Reordered retagged other ∧
        (∀ new ∈ retagging, ∃ p, Path.parse new.1 = .ok p ∧
          p.get retagged = some new.2 ∧ p.get other = some new.2) ∧
        ∀ again, apply again (setting retagging) retagged = .ok retagged := by
  have htagged : (Path.tagged "a").WellFormed := by
    simp [Path.tagged, Value.WellFormed, Value.FieldsWellFormed,
      Value.ItemsWellFormed, Fields.keys]
  have hvalues : ∀ new ∈ retagging, new.2.WellFormed := by
    simp [retagging, Value.WellFormed, Value.wellFormed_ofInt]
  have hdiverge : retagging.Pairwise fun a b =>
      Path.Diverge (segmentsOf a.1) (segmentsOf b.1) := by
    decide +kernel
  have hpairwise : retagging.Pairwise DivergingKeys :=
    hdiverge.imp divergingKeys_of_segmentsOf
  have hperm : retagging.Perm retaggingInOrder := by decide +kernel
  have hfirst : apply someTime (setting retagging) (Path.tagged "a") =
      .ok retagged := by
    decide +kernel
  have hother : apply someTime (setting retaggingInOrder) (Path.tagged "a") =
      .ok (.object [("tags", .array [.string "a", .string "b", .string "c"]),
        ("labels", .array [.string "x"]), ("count", .ofInt 3)]) := by
    decide +kernel
  exact ⟨⟨htagged, hvalues, hpairwise, hperm⟩, hfirst, _, hother,
    by decide +kernel,
    set_in_any_order htagged hvalues hpairwise hperm hfirst hother⟩

end DocumentStore.Update
