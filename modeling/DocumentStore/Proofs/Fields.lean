import DocumentStore.Fields

/-!
# The laws of fields

What each operation on fields does to a lookup and to the list of keys. A key
that is assigned is found again and the others are found as before; the keys
keep their order, and no operation makes one of them stand twice.
-/

namespace DocumentStore.Fields

universe u
variable {α : Type u} {key k : String} {v : α} {fields : List (String × α)}

theorem keys_cons (entry : String × α) (rest : List (String × α)) :
    keys (entry :: rest) = entry.1 :: keys rest := rfl

/-! ## Lookup -/

theorem get?_eq_none_iff : get? key fields = none ↔ key ∉ keys fields := by
  induction fields with
  | nil => simp [get?, keys]
  | cons entry rest ih =>
      obtain ⟨k, w⟩ := entry
      rw [get?, keys_cons, List.mem_cons]
      by_cases h : k = key
      · rw [if_pos h]
        simp [h]
      · rw [if_neg h, ih]
        simp [Ne.symm h]

theorem mem_of_get? (h : get? key fields = some v) : (key, v) ∈ fields := by
  induction fields with
  | nil => cases h
  | cons entry rest ih =>
      obtain ⟨k, w⟩ := entry
      rw [get?] at h
      split at h
      · next hk =>
          subst hk
          cases h
          exact List.mem_cons_self
      · exact List.mem_cons_of_mem _ (ih h)

/-! ## Assignment -/

theorem get?_insert_self (key : String) (v : α) (fields : List (String × α)) :
    get? key (insert key v fields) = some v := by
  induction fields with
  | nil => simp [insert, get?]
  | cons entry rest ih =>
      obtain ⟨k, w⟩ := entry
      rw [insert]
      split
      · next h => rw [get?, if_pos h]
      · next h => rw [get?, if_neg h, ih]

theorem get?_insert_of_ne (h : key ≠ k) :
    get? k (insert key v fields) = get? k fields := by
  induction fields with
  | nil => simp only [insert, get?, if_neg h]
  | cons entry rest ih =>
      obtain ⟨l, w⟩ := entry
      rw [insert]
      split
      · next hl =>
          have hlk : l ≠ k := fun e => h (hl.symm.trans e)
          rw [get?, get?, if_neg hlk, if_neg hlk]
      · rw [get?, get?, ih]

theorem insert_of_notMem (h : key ∉ keys fields) :
    insert key v fields = fields ++ [(key, v)] := by
  induction fields with
  | nil => rfl
  | cons entry rest ih =>
      obtain ⟨k, w⟩ := entry
      rw [keys_cons, List.mem_cons, not_or] at h
      rw [insert, if_neg (Ne.symm h.1), ih h.2, List.cons_append]

theorem keys_insert_of_mem (h : key ∈ keys fields) :
    keys (insert key v fields) = keys fields := by
  induction fields with
  | nil => cases h
  | cons entry rest ih =>
      obtain ⟨k, w⟩ := entry
      rw [insert]
      split
      · rfl
      · next hk =>
          rw [keys_cons, List.mem_cons] at h
          rw [keys_cons, keys_cons, ih (h.resolve_left (Ne.symm hk))]

theorem nodup_keys_insert (key : String) (v : α) (h : (keys fields).Nodup) :
    (keys (insert key v fields)).Nodup := by
  by_cases hmem : key ∈ keys fields
  · rwa [keys_insert_of_mem hmem]
  · rw [insert_of_notMem hmem, keys, List.map_append, List.nodup_append]
    refine ⟨h, by simp, ?_⟩
    intro a ha b hb hab
    rw [List.map_singleton, List.mem_singleton] at hb
    rw [hab, hb] at ha
    exact hmem ha

theorem keys_prefix_insert (key : String) (v : α) (fields : List (String × α)) :
    keys fields <+: keys (insert key v fields) := by
  by_cases hmem : key ∈ keys fields
  · simp only [keys_insert_of_mem hmem, List.prefix_refl]
  · rw [insert_of_notMem hmem, keys, keys, List.map_append]
    exact List.prefix_append _ _

/-- With distinct keys, to assign a key that is there changes its field and no
other. -/
theorem insert_eq_map (hkey : key ∈ keys fields) (h : (keys fields).Nodup) :
    insert key v fields = fields.map fun field =>
      if field.1 = key then (key, v) else field := by
  induction fields with
  | nil => cases hkey
  | cons entry rest ih =>
      obtain ⟨k, w⟩ := entry
      rw [keys_cons, List.nodup_cons] at h
      rw [insert, List.map_cons]
      split
      · next hk =>
          have hrest : rest.map (fun field => if field.1 = key then (key, v)
              else field) = rest := by
            refine (List.map_congr_left fun field hfield => if_neg ?_).trans
              (List.map_id rest)
            intro hfieldKey
            exact h.1 (List.mem_map.mpr ⟨field, hfield, hfieldKey.trans hk.symm⟩)
          rw [hrest, hk]
      · next hk =>
          rw [keys_cons, List.mem_cons] at hkey
          rw [ih (hkey.resolve_left (Ne.symm hk)) h.2]

/-- A value that is there already is assigned without effect. -/
theorem insert_of_get? (h : get? key fields = some v) :
    insert key v fields = fields := by
  induction fields with
  | nil => cases h
  | cons entry rest ih =>
      obtain ⟨k, w⟩ := entry
      rw [get?] at h
      rw [insert]
      split
      · next hk =>
          rw [if_pos hk] at h
          rw [Option.some.inj h]
      · next hk =>
          rw [if_neg hk] at h
          rw [ih h]

/-- Of two assignments to one key the second one counts. -/
theorem insert_insert (key : String) (v w : α) (fields : List (String × α)) :
    insert key w (insert key v fields) = insert key w fields := by
  induction fields with
  | nil => simp [insert]
  | cons entry rest ih =>
      obtain ⟨k, u⟩ := entry
      rw [insert]
      split
      · next hk => rw [insert, insert, if_pos hk, if_pos hk]
      · next hk => rw [insert, insert, if_neg hk, if_neg hk, ih]

theorem mem_insert {entry : String × α} (h : entry ∈ insert key v fields) :
    entry = (key, v) ∨ entry ∈ fields := by
  induction fields with
  | nil => exact .inl (List.mem_singleton.mp h)
  | cons first rest ih =>
      obtain ⟨k, w⟩ := first
      rw [insert] at h
      split at h
      · next hk =>
          rcases List.mem_cons.mp h with rfl | h
          · exact .inl (by rw [hk])
          · exact .inr (List.mem_cons_of_mem _ h)
      · rcases List.mem_cons.mp h with rfl | h
        · exact .inr List.mem_cons_self
        · exact (ih h).imp_right (List.mem_cons_of_mem _)

/-- An assignment drops the entry that a lookup finds, and no other. -/
theorem mem_insert_or_get? {entry : String × α} (h : entry ∈ fields) :
    entry ∈ insert key v fields ∨ get? key fields = some entry.2 := by
  induction fields with
  | nil => cases h
  | cons first rest ih =>
      obtain ⟨k, w⟩ := first
      rw [insert, get?]
      split
      · rcases List.mem_cons.mp h with rfl | h
        · exact .inr rfl
        · exact .inl (List.mem_cons_of_mem _ h)
      · rcases List.mem_cons.mp h with rfl | h
        · exact .inl List.mem_cons_self
        · exact (ih h).imp_left (List.mem_cons_of_mem _)

theorem foldl_insert (more : List (String × α))
    (h : (keys (fields ++ more)).Nodup) :
    more.foldl (fun acc (key, value) => insert key value acc) fields =
      fields ++ more := by
  induction more generalizing fields with
  | nil => rw [List.foldl_nil, List.append_nil]
  | cons entry rest ih =>
      obtain ⟨k, w⟩ := entry
      have hnew : k ∉ keys fields := by
        rw [keys, List.map_append, List.nodup_append] at h
        intro hmem
        exact h.2.2 k hmem k List.mem_cons_self rfl
      have happend : fields ++ (k, w) :: rest = insert k w fields ++ rest := by
        rw [insert_of_notMem hnew, List.append_assoc, List.singleton_append]
      rw [happend] at h ⊢
      exact ih h

/-- Merged into nothing, fields with distinct keys stay as they are. -/
theorem merge_nil (h : (keys fields).Nodup) : merge [] fields = fields :=
  foldl_insert fields h

/-! ## Removal -/

theorem erase_sublist (key : String) (fields : List (String × α)) :
    (erase key fields).Sublist fields := by
  induction fields with
  | nil => exact List.Sublist.slnil
  | cons entry rest ih =>
      obtain ⟨k, w⟩ := entry
      rw [erase]
      split
      · exact List.sublist_cons_self _ _
      · exact ih.cons_cons _

theorem nodup_keys_of_sublist {more : List (String × α)}
    (hsub : fields.Sublist more) (h : (keys more).Nodup) :
    (keys fields).Nodup :=
  h.sublist (hsub.map _)

theorem get?_erase_of_ne (h : key ≠ k) :
    get? k (erase key fields) = get? k fields := by
  induction fields with
  | nil => rfl
  | cons entry rest ih =>
      obtain ⟨l, w⟩ := entry
      rw [erase]
      split
      · next hl =>
          have hlk : l ≠ k := fun e => h (hl.symm.trans e)
          rw [get?, if_neg hlk]
      · rw [get?, get?, ih]

theorem get?_erase_self (key : String) (h : (keys fields).Nodup) :
    get? key (erase key fields) = none := by
  induction fields with
  | nil => rfl
  | cons entry rest ih =>
      obtain ⟨k, w⟩ := entry
      rw [keys_cons, List.nodup_cons] at h
      rw [erase]
      split
      · next hk => exact get?_eq_none_iff.mpr (hk ▸ h.1)
      · next hk => rw [get?, if_neg hk, ih h.2]

theorem erase_of_notMem (h : key ∉ keys fields) :
    erase key fields = fields := by
  induction fields with
  | nil => rfl
  | cons entry rest ih =>
      obtain ⟨k, w⟩ := entry
      rw [keys_cons, List.mem_cons, not_or] at h
      rw [erase, if_neg (Ne.symm h.1), ih h.2]

/-- With distinct keys, only the field with the key is taken away. -/
theorem erase_eq_filter (h : (keys fields).Nodup) :
    erase key fields = fields.filter fun field => field.1 ≠ key := by
  induction fields with
  | nil => rfl
  | cons entry rest ih =>
      obtain ⟨k, w⟩ := entry
      rw [keys_cons, List.nodup_cons] at h
      rw [erase]
      split
      · next hk =>
          have hkey : key ∉ keys rest := hk ▸ h.1
          rw [List.filter_cons_of_neg (by simpa using hk), ← ih h.2,
            erase_of_notMem hkey]
      · next hk => rw [List.filter_cons_of_pos (by simpa using hk), ih h.2]

/-- With distinct keys, a field that is taken away and assigned again goes
last. -/
theorem insert_erase (v : α) (h : (keys fields).Nodup) :
    insert key v (erase key fields) = erase key fields ++ [(key, v)] :=
  insert_of_notMem (get?_eq_none_iff.mp (get?_erase_self key h))

theorem perm_erase_append (h : get? key fields = some v) :
    fields.Perm (erase key fields ++ [(key, v)]) := by
  induction fields with
  | nil => cases h
  | cons entry rest ih =>
      obtain ⟨k, w⟩ := entry
      rw [get?] at h
      rw [erase]
      split at h
      · next hk =>
          cases h
          rw [if_pos hk, hk]
          exact (List.perm_append_singleton _ rest).symm
      · next hk =>
          rw [if_neg hk]
          exact (ih h).cons (k, w)

/-! ## Changes in place -/

theorem keys_modify (key : String) (f : α → α) (fields : List (String × α)) :
    keys (modify key f fields) = keys fields := by
  induction fields with
  | nil => rfl
  | cons entry rest ih =>
      obtain ⟨k, w⟩ := entry
      rw [modify]
      split
      · rfl
      · rw [keys_cons, keys_cons, ih]

theorem mem_modify {f : α → α} {entry : String × α}
    (h : entry ∈ modify key f fields) :
    entry ∈ fields ∨ ∃ w, (key, w) ∈ fields ∧ entry = (key, f w) := by
  induction fields with
  | nil => cases h
  | cons first rest ih =>
      obtain ⟨k, w⟩ := first
      rw [modify] at h
      split at h
      · next hk =>
          subst hk
          rcases List.mem_cons.mp h with rfl | h
          · exact .inr ⟨w, List.mem_cons_self, rfl⟩
          · exact .inl (List.mem_cons_of_mem _ h)
      · rcases List.mem_cons.mp h with rfl | h
        · exact .inl List.mem_cons_self
        · rcases ih h with h | ⟨x, hx, rfl⟩
          · exact .inl (List.mem_cons_of_mem _ h)
          · exact .inr ⟨x, List.mem_cons_of_mem _ hx, rfl⟩

theorem get?_modify_of_ne {f : α → α} (h : key ≠ k) :
    get? k (modify key f fields) = get? k fields := by
  induction fields with
  | nil => rfl
  | cons entry rest ih =>
      obtain ⟨l, w⟩ := entry
      rw [modify]
      split
      · next hl =>
          have hlk : l ≠ k := fun e => h (hl.symm.trans e)
          rw [get?, get?, if_neg hlk, if_neg hlk]
      · rw [get?, get?, ih]

theorem get?_modify_self (key : String) (f : α → α)
    (fields : List (String × α)) :
    get? key (modify key f fields) = (get? key fields).map f := by
  induction fields with
  | nil => rfl
  | cons entry rest ih =>
      obtain ⟨k, w⟩ := entry
      rw [modify, get?]
      split
      · next hk => rw [get?, if_pos hk, Option.map_some]
      · next hk => rw [get?, if_neg hk, ih]

/-- A change in place is an assignment where there is something to change. -/
theorem modify_of_get? {f : α → α} (h : get? key fields = some v) :
    modify key f fields = insert key (f v) fields := by
  induction fields with
  | nil => cases h
  | cons entry rest ih =>
      obtain ⟨k, w⟩ := entry
      rw [get?] at h
      rw [modify, insert]
      split
      · next hk =>
          rw [if_pos hk] at h
          cases h
          rfl
      · next hk =>
          rw [if_neg hk] at h
          rw [ih h]

theorem modify_of_notMem {f : α → α} (h : key ∉ keys fields) :
    modify key f fields = fields := by
  induction fields with
  | nil => rfl
  | cons entry rest ih =>
      obtain ⟨k, w⟩ := entry
      rw [keys_cons, List.mem_cons, not_or] at h
      rw [modify, if_neg (Ne.symm h.1), ih h.2]

/-! ## A key put at a place -/

theorem insertAt_perm (place : Nat) (key : String) (v : α)
    (fields : List (String × α)) :
    (insertAt place key v fields).Perm ((key, v) :: fields) :=
  List.perm_insertIdx _ _ (Nat.min_le_right _ _)

theorem mem_insertAt {place : Nat} {entry : String × α} :
    entry ∈ insertAt place key v fields ↔ entry = (key, v) ∨
      entry ∈ fields := by
  rw [(insertAt_perm place key v fields).mem_iff, List.mem_cons]

theorem nodup_keys_insertAt {place : Nat} (hkey : key ∉ keys fields)
    (h : (keys fields).Nodup) :
    (keys (insertAt place key v fields)).Nodup := by
  have hperm : (keys (insertAt place key v fields)).Perm (key :: keys fields) :=
    (insertAt_perm place key v fields).map _
  exact hperm.nodup_iff.mpr (List.nodup_cons.mpr ⟨hkey, h⟩)

/-- With distinct keys, lookup is membership. -/
theorem get?_eq_some_iff (h : (keys fields).Nodup) :
    get? key fields = some v ↔ (key, v) ∈ fields := by
  refine ⟨mem_of_get?, ?_⟩
  intro hmem
  induction fields with
  | nil => cases hmem
  | cons entry rest ih =>
      obtain ⟨k, w⟩ := entry
      rw [keys_cons, List.nodup_cons] at h
      rw [get?]
      rcases List.mem_cons.mp hmem with heq | hmem
      · cases heq
        rw [if_pos rfl]
      · have hk : k ≠ key := by
          rintro rfl
          exact h.1 (List.mem_map.mpr ⟨_, hmem, rfl⟩)
        rw [if_neg hk, ih h.2 hmem]

end DocumentStore.Fields
