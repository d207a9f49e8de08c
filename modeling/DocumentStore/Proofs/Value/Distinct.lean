import DocumentStore.Proofs.Value.Alike

/-!
# Values without repetitions

Values are added to a list one after another, each unless one alike is there by
then. A value that is there stays there, so nothing is lost
(`addsDistinct_foldl`), and values that are all there add nothing
(`foldl_addTo_of_isAmong`).
-/

namespace DocumentStore.Value

variable {v w : Value} {start values added : List Value}

theorem isAmong_of_mem (hw : w ∈ values) (h : w.alike v = true) :
    v.isAmong values = true :=
  List.any_eq_true.mpr ⟨w, hw, h⟩

theorem isAmong_append_left (h : v.isAmong start = true) (more : List Value) :
    v.isAmong (start ++ more) = true := by
  rw [isAmong, List.any_append, ← isAmong, h, Bool.true_or]

/-- What is added to a list, of some values: they keep their order, none is
alike to one before it in the list or among those added, and for each of the
values one alike is there in the end. -/
structure AddsDistinct (start values added : List Value) : Prop where
  sublist : added.Sublist values
  fresh : ∀ v ∈ added, v.isAmong start = false
  apart : added.Pairwise fun v w => v.alike w = false
  complete : ∀ v ∈ values, v.isAmong (start ++ added) = true

theorem addsDistinct_foldl (start : List Value)
    (hvalues : ∀ v ∈ values, v.WellFormed) :
    ∃ added, values.foldl addTo start = start ++ added ∧
      AddsDistinct start values added := by
  induction values generalizing start with
  | nil =>
      exact ⟨[], (List.append_nil start).symm, .slnil,
        List.forall_mem_nil _, .nil,
        List.forall_mem_nil _⟩
  | cons v rest ih =>
      obtain ⟨hv, hrest⟩ := List.forall_mem_cons.mp hvalues
      rw [List.foldl_cons]
      cases hamong : v.isAmong start with
      | true =>
          rw [addTo, if_pos hamong]
          obtain ⟨added, hresult, h⟩ := ih start hrest
          refine ⟨added, hresult, h.sublist.cons v, h.fresh, h.apart, ?_⟩
          exact List.forall_mem_cons.mpr ⟨isAmong_append_left hamong added,
            h.complete⟩
      | false =>
          rw [addTo, if_neg (by rw [hamong]; exact Bool.false_ne_true)]
          obtain ⟨added, hresult, h⟩ := ih (start ++ [v]) hrest
          have hfresh : ∀ w ∈ added,
              w.isAmong start = false ∧ v.alike w = false := by
            intro w hw
            have hboth := h.fresh w hw
            rw [isAmong, List.any_append, Bool.or_eq_false_iff, List.any_cons,
              List.any_nil, Bool.or_false] at hboth
            exact hboth
          rw [List.append_assoc, List.singleton_append] at hresult
          refine ⟨v :: added, hresult, h.sublist.cons_cons v, ?_, ?_, ?_⟩
          · exact List.forall_mem_cons.mpr ⟨hamong, fun w hw => (hfresh w hw).1⟩
          · exact List.pairwise_cons.mpr ⟨fun w hw => (hfresh w hw).2, h.apart⟩
          · refine List.forall_mem_cons.mpr ⟨?_, ?_⟩
            · exact isAmong_of_mem
                (List.mem_append_right start List.mem_cons_self) (alike_self hv)
            · intro w hw
              have hamong := h.complete w hw
              rwa [List.append_assoc, List.singleton_append] at hamong

theorem foldl_addTo_of_isAmong (h : ∀ v ∈ values, v.isAmong start = true) :
    values.foldl addTo start = start := by
  induction values with
  | nil => rfl
  | cons v rest ih =>
      obtain ⟨hv, hrest⟩ := List.forall_mem_cons.mp h
      rw [List.foldl_cons, addTo, if_pos hv]
      exact ih hrest

end DocumentStore.Value
