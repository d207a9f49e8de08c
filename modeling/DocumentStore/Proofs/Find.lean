import DocumentStore.Find
import DocumentStore.Proofs.Path.Access
import DocumentStore.Proofs.Run

/-!
# What a search gives

Documents that a search gives are stored documents, possibly under a projection.
A projection takes parts away or copies parts into a new object, and neither can
turn an identifier into null: a removal keeps the kind of what it changes, and a
copy either is the identifier itself or ends in a container.
-/

namespace DocumentStore

variable {doc result v w : Value} {docs : List Value}

/-! ## Writing and removing in what is held -/

theorem held_erase (segments : List Segment) (h : v.Held) :
    (Path.erase segments v).Held := by
  refine ⟨⟨Path.wellFormed_erase segments h.wellFormed,
    Path.isObject_erase segments h.isObject⟩, ?_⟩
  intro id hid
  cases segments with
  | nil =>
      rw [Path.erase] at hid
      exact h.idProper id hid
  | cons segment rest =>
      obtain ⟨fields, rfl⟩ := Value.exists_fields_of_isObject h.isObject
      have hkeys := (Value.wellFormed_object_iff.mp h.wellFormed).1
      by_cases hkey : segment.text = idKey
      · cases rest with
        | nil =>
            rw [Path.erase, hkey] at hid
            have hnone := (Fields.get?_erase_self idKey hkeys).symm.trans hid
            cases hnone
        | cons next rest =>
            have hmodify :=
              Fields.get?_modify_self idKey (Path.erase (next :: rest)) fields
            rw [Path.erase, hkey] at hid
            · obtain ⟨old, hold, rfl⟩ :=
                Option.map_eq_some_iff.mp (hmodify.symm.trans hid)
              rw [Path.isNull_erase]
              exact h.idProper old hold
            · simp
      · cases rest with
        | nil =>
            rw [Path.erase] at hid
            exact h.idProper id ((Fields.get?_erase_of_ne hkey).symm.trans hid)
        | cons next rest =>
            rw [Path.erase] at hid
            · exact h.idProper id
                ((Fields.get?_modify_of_ne hkey).symm.trans hid)
            · simp

/-- Writing what a path leads to in one document into another one. -/
theorem held_copy {p : Path} (hdoc : doc.Held) (h : v.Held) {part : Value}
    (hpart : p.get doc = some part) (hset : p.set part v = .ok w) : w.Held := by
  have hwf := Path.wellFormed_of_lookup p.segments hdoc.wellFormed hpart
  refine ⟨⟨Path.wellFormed_set hwf h.wellFormed hset,
    Path.isObject_set h.isObject hset⟩, ?_⟩
  intro id hid
  have hassign := Path.set_eq_ok_iff.mp hset
  obtain ⟨segment, rest, hsegments⟩ := List.exists_cons_of_ne_nil p.nonempty
  rw [Path.get, hsegments] at hpart
  rw [hsegments] at hassign
  obtain ⟨fields, rfl⟩ := Value.exists_fields_of_isObject h.isObject
  rw [Path.assign_object] at hassign
  obtain ⟨rfl, -⟩ := Prod.mk.inj hassign
  by_cases hkey : segment.text = idKey
  · rw [hkey] at hid
    have hbelow := (Fields.get?_insert_self _ _ _).symm.trans hid
    cases rest with
    | nil =>
        cases hbelow
        rw [Path.lookup, Option.bind_eq_some_iff] at hpart
        obtain ⟨child, hchild, hrest⟩ := hpart
        cases hrest
        obtain ⟨found, rfl⟩ := Value.exists_fields_of_isObject hdoc.isObject
        rw [Path.child?, hkey] at hchild
        exact hdoc.idProper _ hchild
    | cons next rest =>
        cases hbelow
        exact Path.isNull_assign next rest part _
  · exact h.idProper id ((Fields.get?_insert_of_ne hkey).symm.trans hid)

/-! ## Projections -/

namespace Projection

variable {projection : List (String × Value)}

theorem held_exclude {excluded : Value → Bool} (hdoc : doc.Held)
    (h : exclude excluded projection doc = .ok result) : result.Held := by
  induction projection generalizing doc with
  | nil =>
      cases h
      exact hdoc
  | cons entry rest ih =>
      rw [exclude] at h
      split at h
      · obtain ⟨path, -, h⟩ := bind_eq_ok.mp h
        exact ih (held_erase path.segments hdoc) h
      · exact ih hdoc h

theorem held_keep (hdoc : doc.Held) (hv : v.Held)
    (h : keep doc projection v = .ok result) :
    result.Held := by
  induction projection generalizing v with
  | nil =>
      cases h
      exact hv
  | cons entry rest ih =>
      rw [keep] at h
      split at h
      · exact ih hv h
      · obtain ⟨path, -, h⟩ := bind_eq_ok.mp h
        cases hget : path.get doc with
        | none =>
            rw [hget] at h
            exact ih hv h
        | some part =>
            rw [hget] at h
            obtain ⟨copied, hcopied, h⟩ := bind_eq_ok.mp h
            exact ih (held_copy hdoc hv hget hcopied) h

theorem held_idOnly (id : Option Value)
    (hid : ∀ v, id = some v → v.WellFormed ∧ v.isNull = false) :
    (idOnly id).Held := by
  cases id with
  | none => exact ⟨⟨Value.wellFormed_emptyObject, rfl⟩, nofun⟩
  | some v =>
      obtain ⟨hwf, hnull⟩ := hid v rfl
      refine ⟨⟨Value.wellFormed_emptyObject.insert idKey hwf, rfl⟩, ?_⟩
      intro found hfound
      cases hfound
      exact hnull

theorem held_apply (hdoc : doc.Held) (h : apply projection doc = .ok result) :
    result.Held := by
  rw [apply] at h
  split at h
  · cases h
    exact hdoc
  · split at h
    · exact held_exclude hdoc h
    · refine held_keep hdoc (held_idOnly _ ?_) h
      intro v hv
      split at hv
      · cases hv
      · exact ⟨hdoc.wellFormed.field? hv, hdoc.idProper v hv⟩

end Projection

/-! ## Searches -/

theorem Filter.select_sublist {clause : Value} {found : List Value}
    (h : Filter.select clause docs = .ok found) : found.Sublist docs := by
  induction docs generalizing found with
  | nil =>
      cases h
      exact List.Sublist.slnil
  | cons doc rest ih =>
      obtain ⟨matched, -, h⟩ := bind_eq_ok.mp h
      cases matched with
      | true =>
          obtain ⟨others, hothers, heq⟩ := bind_eq_ok.mp h
          cases heq
          exact (ih hothers).cons_cons _
      | false => exact (ih h).cons _

theorem mapM_ok {f : Value → Result Value} {results : List Value}
    (h : docs.mapM f = .ok results) (hv : v ∈ results) :
    ∃ doc ∈ docs, f doc = .ok v := by
  have hall := mapM_eq_ok.mp h
  clear h
  induction hall with
  | nil => cases hv
  | @cons doc first rest others hfirst hothers ih =>
      rcases List.mem_cons.mp hv with rfl | hv
      · exact ⟨doc, List.mem_cons_self, hfirst⟩
      · obtain ⟨d, hd, heq⟩ := ih hv
        exact ⟨d, List.mem_cons_of_mem _ hd, heq⟩

namespace Find

theorem Options.page_sublist (options : Options) (docs : List Value) :
    (options.page docs).Sublist docs := by
  rw [page]
  split
  · exact (List.take_sublist _ _).trans (List.drop_sublist _ _)
  · exact List.drop_sublist _ _

/-- Searching sorts first; what is left is cut to a page and projected. -/
theorem Options.apply_eq_ok {options : Options} {results : List Value}
    (h : options.apply docs = .ok results) :
    ∃ sorted, (∀ v ∈ sorted, v ∈ docs) ∧
      (match options.projection with
        | some projection =>
            (options.page sorted).mapM (Projection.apply projection)
        | none => .ok (options.page sorted)) = .ok results := by
  unfold apply at h
  cases hsort : options.sort with
  | none =>
      rw [hsort] at h
      exact ⟨docs, fun v hv => hv, h⟩
  | some spec =>
      rw [hsort] at h
      obtain ⟨sorted, hsorted, h⟩ := bind_eq_ok.mp h
      obtain ⟨path, -, heq⟩ := bind_eq_ok.mp hsorted
      cases heq
      exact ⟨_, fun v hv => List.mem_mergeSort.mp hv, h⟩

theorem Options.held_apply {options : Options} {results : List Value}
    (hdocs : ∀ doc ∈ docs, doc.Held) (h : options.apply docs = .ok results) :
    ∀ v ∈ results, v.Held := by
  obtain ⟨sorted, hsorted, h⟩ := Options.apply_eq_ok h
  have hpage : ∀ v ∈ options.page sorted, v.Held :=
    fun v hv => hdocs v (hsorted v ((options.page_sublist sorted).subset hv))
  cases hprojection : options.projection with
  | none =>
      rw [hprojection] at h
      cases h
      exact hpage
  | some projection =>
      rw [hprojection] at h
      intro v hv
      obtain ⟨doc, hdoc, heq⟩ := mapM_ok h hv
      exact Projection.held_apply (hpage doc hdoc) heq

end Find

end DocumentStore
