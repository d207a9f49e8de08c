import DocumentStore.Proofs.Path.Access
import DocumentStore.Proofs.Run
import DocumentStore.Update

/-!
# Updates keep well-formed objects

An update that succeeds on a well-formed object gives one. Every operator but
two writes one value at one path, so the argument has two halves: the value that
an operator makes is well-formed if its operand and the value it starts from
are, and writing or removing at a path does no harm. Numbers and dates are
well-formed whatever they are, and the operators on arrays only put together
items that were there with items of the operand.
-/

namespace DocumentStore

namespace Value

theorem wellFormed_ofInt (n : Int) : (ofInt n).WellFormed := by
  rw [ofInt]
  split
  · exact wellFormed_number _
  · cases Double.ofInt? n with
    | none => exact wellFormed_null
    | some x => exact wellFormed_number _

theorem wellFormed_ofDouble? (x : Option Double) :
    (ofDouble? x).WellFormed := by
  cases x with
  | none => exact wellFormed_null
  | some x => exact wellFormed_number _

theorem wellFormed_ofDate (t : Instant) : (ofDate t).WellFormed := by
  rw [ofDate, wellFormed_object_iff]
  refine ⟨List.pairwise_singleton _ _, ?_⟩
  intro entry hentry
  rw [List.mem_singleton.mp hentry]
  exact wellFormed_string _

end Value

namespace Update

variable {now : Instant} {op : Operator} {path : String}
  {operand new doc doc' : Value}
  {current : Option Value} {items kept : List Value}

/-! ## Arithmetic -/

theorem wellFormed_arithmetic {onInts : Int → Int → Int}
    {onDoubles : Double → Double → Option Double}
    (h : arithmetic op path onInts onDoubles operand current = .ok new) :
    new.WellFormed := by
  unfold arithmetic at h
  simp only [] at h
  split at h
  · cases h
  · cases h
  · split at h
    · cases h
      split
      · exact Value.wellFormed_ofInt _
      · exact Value.wellFormed_ofDouble? _
    · cases h
      exact Value.wellFormed_ofDouble? _

theorem wellFormed_bitwise (h : bitwise path operand current = .ok new) :
    new.WellFormed := by
  unfold bitwise at h
  cases operand with
  | object masks =>
      dsimp only at h
      split at h
      · simp only [bind_eq_ok] at h
        obtain ⟨bits, -, a, -, b, -, c, -, h⟩ := h
        cases h
        exact Value.wellFormed_ofInt _
      · split at h
        · simp only [bind_eq_ok] at h
          obtain ⟨bits, -, a, -, b, -, c, -, h⟩ := h
          cases h
          exact Value.wellFormed_ofInt _
        · cases h
  | _ =>
      dsimp only at h
      split at h
      · cases h
      · split at h
        · cases h
        · cases h

/-! ## Arrays -/

theorem existingArray_some_eq_ok {v : Value} {found : Option (List Value)} :
    existingArray op path (some v) = .ok found ↔
      ∃ items, v = .array items ∧ found = some items := by
  refine ⟨?_, ?_⟩
  · intro h
    cases v with
    | array items => exact ⟨items, rfl, (Except.ok.inj h).symm⟩
    | _ => cases h
  · rintro ⟨items, rfl, rfl⟩
    rfl

theorem wellFormed_existing (hcurrent : ∀ v, current = some v → v.WellFormed)
    (h : existingArray op path current = .ok (some items)) :
    ∀ v ∈ items, v.WellFormed := by
  cases current with
  | none => cases h
  | some v =>
      obtain ⟨found, rfl, hfound⟩ := existingArray_some_eq_ok.mp h
      cases hfound
      exact Value.wellFormed_array_iff.mp (hcurrent _ rfl)

theorem wellFormed_addedItems (h : operand.WellFormed) :
    ∀ v ∈ addedItems operand, v.WellFormed := by
  intro v hv
  rw [addedItems] at hv
  split at hv
  · next found heq => exact Value.wellFormed_array_iff.mp (h.field? heq) v hv
  · next single hnone heq =>
      rw [List.mem_singleton.mp hv]
      exact h.field? heq
  · rw [List.mem_singleton.mp hv]
    exact h

theorem mem_foldl_addTo {v : Value} (more : List Value)
    (h : v ∈ more.foldl Value.addTo items) :
    v ∈ items ∨ v ∈ more := by
  induction more generalizing items with
  | nil => exact .inl h
  | cons w more ih =>
      rcases ih h with hmem | hmem
      · rw [Value.addTo] at hmem
        split at hmem
        · exact .inl hmem
        · rcases List.mem_append.mp hmem with hmem | hmem
          · exact .inl hmem
          · exact .inr (List.mem_singleton.mp hmem ▸ List.mem_cons_self)
      · exact .inr (List.mem_cons_of_mem _ hmem)

theorem pop_sublist (h : pop path operand items = .ok kept) :
    kept.Sublist items := by
  rw [pop] at h
  split at h
  · cases h
    exact List.dropLast_sublist _
  · split at h
    · cases h
      exact List.drop_sublist _ _
    · cases h

theorem pull_sublist (h : pull operand items = .ok kept) :
    kept.Sublist items := by
  induction items generalizing kept with
  | nil =>
      cases h
      exact List.Sublist.slnil
  | cons item rest ih =>
      simp only [pull, bind_eq_ok] at h
      obtain ⟨pulled, -, others, hothers, h⟩ := h
      cases h
      split
      · exact (ih hothers).cons _
      · exact (ih hothers).cons_cons _

/-! ## The new value of a field -/

theorem wellFormed_extreme {wanted : Ordering} (hoperand : operand.WellFormed)
    (h : extreme wanted operand current = some new) : new.WellFormed := by
  cases current with
  | none =>
      cases h
      exact hoperand
  | some v =>
      rw [extreme] at h
      split at h
      · cases h
        exact hoperand
      · cases h

theorem wellFormed_items (hcurrent : ∀ v, current = some v → v.WellFormed)
    {found : Option (List Value)}
    (h : existingArray op path current = .ok found) :
    ∀ v ∈ found.getD [], v.WellFormed := by
  cases found with
  | none => exact fun v hv => nomatch hv
  | some items => exact wellFormed_existing hcurrent h

theorem wellFormed_newValue (hoperand : operand.WellFormed)
    (hcurrent : ∀ v, current = some v → v.WellFormed)
    (h : newValue now op path operand current = .ok (some new)) :
    new.WellFormed := by
  cases op with
  | set =>
      cases h
      exact hoperand
  | currentDate =>
      cases h
      exact Value.wellFormed_ofDate now
  | inc =>
      obtain ⟨v, hv, heq⟩ := map_eq_ok.mp h
      cases heq
      exact wellFormed_arithmetic hv
  | mul =>
      obtain ⟨v, hv, heq⟩ := map_eq_ok.mp h
      cases heq
      exact wellFormed_arithmetic hv
  | bit =>
      obtain ⟨v, hv, heq⟩ := map_eq_ok.mp h
      cases heq
      exact wellFormed_bitwise hv
  | min => exact wellFormed_extreme hoperand (Except.ok.inj h)
  | max => exact wellFormed_extreme hoperand (Except.ok.inj h)
  | push =>
      obtain ⟨found, hfound, heq⟩ := bind_eq_ok.mp h
      cases heq
      rw [Value.wellFormed_array_iff]
      intro v hv
      rcases List.mem_append.mp hv with hv | hv
      · exact wellFormed_items hcurrent hfound v hv
      · exact wellFormed_addedItems hoperand v hv
  | addToSet =>
      obtain ⟨found, hfound, heq⟩ := bind_eq_ok.mp h
      cases heq
      rw [Value.wellFormed_array_iff]
      intro v hv
      rcases mem_foldl_addTo _ hv with hv | hv
      · exact wellFormed_items hcurrent hfound v hv
      · exact wellFormed_addedItems hoperand v hv
  | pop =>
      obtain ⟨found, hfound, h⟩ := bind_eq_ok.mp h
      cases found with
      | none => cases h
      | some items =>
          obtain ⟨kept, hkept, heq⟩ := bind_eq_ok.mp h
          cases heq
          rw [Value.wellFormed_array_iff]
          intro v hv
          exact wellFormed_existing hcurrent hfound v
            ((pop_sublist hkept).subset hv)
  | pull =>
      obtain ⟨found, hfound, h⟩ := bind_eq_ok.mp h
      cases found with
      | none => cases h
      | some items =>
          obtain ⟨kept, hkept, heq⟩ := bind_eq_ok.mp h
          cases heq
          rw [Value.wellFormed_array_iff]
          intro v hv
          exact wellFormed_existing hcurrent hfound v
            ((pull_sublist hkept).subset hv)
  | pullAll =>
      cases operand with
      | array removals =>
          obtain ⟨found, hfound, heq⟩ := bind_eq_ok.mp h
          cases found with
          | none => cases heq
          | some items =>
              cases heq
              rw [Value.wellFormed_array_iff]
              intro v hv
              exact wellFormed_existing hcurrent hfound v
                (List.mem_filter.mp hv |>.1)
      | null => cases h
      | bool b => cases h
      | number n => cases h
      | string s => cases h
      | object fields => cases h
  | unset => cases h
  | rename => cases h
  | setOnInsert => cases h

/-! ## Fields -/

theorem storable_set {p : Path} (hdoc : doc.Storable) (hnew : new.WellFormed)
    (h : p.set new doc = .ok doc') : doc'.Storable :=
  ⟨Path.wellFormed_set hnew hdoc.wellFormed h,
    Path.isObject_set hdoc.isObject h⟩

theorem storable_remove (p : Path) (hdoc : doc.Storable) :
    (p.remove doc).2.Storable :=
  ⟨Path.wellFormed_erase p.segments hdoc.wellFormed,
    Path.isObject_erase p.segments hdoc.isObject⟩

theorem wellFormed_get {p : Path} (hdoc : doc.WellFormed) {v : Value}
    (h : p.get doc = some v) :
    v.WellFormed :=
  Path.wellFormed_of_lookup p.segments hdoc h

theorem storable_rename {source : Path} (hdoc : doc.Storable)
    (h : rename path source operand doc = .ok doc') : doc'.Storable := by
  cases operand with
  | string text =>
      obtain ⟨target, -, h⟩ := bind_eq_ok.mp h
      cases hget : source.get doc with
      | none =>
          simp only [Path.remove, hget] at h
          cases h
          exact hdoc
      | some moved =>
          simp only [Path.remove, hget] at h
          exact storable_set (storable_remove source hdoc)
            (wellFormed_get hdoc.wellFormed hget) h
  | null => cases h
  | bool b => cases h
  | number n => cases h
  | array items => cases h
  | object fields => cases h

theorem storable_applyField (hdoc : doc.Storable)
    (hoperand : operand.WellFormed)
    (h : applyField now op path operand doc = .ok doc') : doc'.Storable := by
  obtain ⟨field, -, h⟩ := bind_eq_ok.mp h
  split at h
  · cases h
    exact storable_remove field hdoc
  · exact storable_rename hdoc h
  · obtain ⟨written, hwritten, h⟩ := bind_eq_ok.mp h
    cases written with
    | none =>
        cases h
        exact hdoc
    | some new =>
        have hcurrent : ∀ v, field.get doc = some v → v.WellFormed :=
          fun v hv => wellFormed_get hdoc.wellFormed hv
        exact storable_set hdoc
          (wellFormed_newValue hoperand hcurrent hwritten) h

theorem storable_applyFields {fields : List (String × Value)}
    (hdoc : doc.Storable) (hfields : ∀ entry ∈ fields, entry.2.WellFormed)
    (h : applyFields now op fields doc = .ok doc') : doc'.Storable := by
  induction fields generalizing doc with
  | nil =>
      cases h
      exact hdoc
  | cons entry rest ih =>
      obtain ⟨changed, hchanged, h⟩ := bind_eq_ok.mp h
      have hentry := hfields entry List.mem_cons_self
      exact ih (storable_applyField hdoc hentry hchanged)
        (fun e he => hfields e (List.mem_cons_of_mem _ he)) h

theorem storable_applyOperators {fields : List (String × Value)}
    (hdoc : doc.Storable) (hfields : ∀ entry ∈ fields, entry.2.WellFormed)
    (h : applyOperators now fields doc = .ok doc') : doc'.Storable := by
  induction fields generalizing doc with
  | nil =>
      cases h
      exact hdoc
  | cons entry rest ih =>
      obtain ⟨name, operand⟩ := entry
      have hrest : ∀ e ∈ rest, e.2.WellFormed :=
        fun e he => hfields e (List.mem_cons_of_mem _ he)
      rw [applyOperators] at h
      split at h
      · exact ih hdoc hrest h
      · split at h
        · next paths =>
            obtain ⟨changed, hchanged, h⟩ := bind_eq_ok.mp h
            have hoperand := hfields _ List.mem_cons_self
            have hpaths := (Value.wellFormed_object_iff.mp hoperand).2
            exact ih (storable_applyFields hdoc hpaths hchanged) hrest h
        · cases h

/-- An update that succeeds makes a well-formed object of a well-formed
object. -/
theorem storable_apply {spec : Value} (hspec : spec.WellFormed)
    (hdoc : doc.WellFormed) (h : apply now spec doc = .ok doc') :
    doc'.Storable := by
  unfold apply at h
  split at h
  · cases h
  · next hobject =>
      have hstart : doc.Storable := ⟨hdoc, by simpa using hobject⟩
      split at h
      · next fields =>
          have hfields := (Value.wellFormed_object_iff.mp hspec).2
          split at h
          · exact storable_applyOperators hstart hfields h
          · exact storable_applyFields hstart hfields h
      · cases h
      · cases h

end Update

end DocumentStore
