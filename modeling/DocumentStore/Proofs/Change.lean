import DocumentStore.Change
import DocumentStore.Proofs.Update

/-!
# Changes keep identifiers

A change of a document that has an identifier gives one whose identifier is
alike to it, or the very same: `apply_eq` says which. What is alike to a string
is that string and nothing else is, so a change neither makes nor loses an
identifier that is a string, and null is alike only to null.

So what a change can do to an identifier is to write it anew, as another value
that is alike to it: `Respells` says when, and `field?_version_iff` that nothing
else happens to it.

A document that is brought about has no such bond; it is only well-formed.
-/

namespace DocumentStore

namespace Value

variable {v w : Value} {s : String}

theorem alike_string_iff : v.alike (.string s) = true ↔ v = .string s := by
  cases v <;> simp [alike]

theorem string_alike_iff : (Value.string s).alike v = true ↔ v = .string s := by
  cases v <;> simp [alike]
  exact eq_comm

theorem isNull_of_alike (h : v.alike w = true) (hw : w.isNull = false) :
    v.isNull = false := by
  cases v with
  | null =>
      cases w with
      | null => cases hw
      | bool b => cases h
      | number n => cases h
      | string s => cases h
      | array items => cases h
      | object fields => cases h
  | bool b => rfl
  | number n => rfl
  | string s => rfl
  | array items => rfl
  | object fields => rfl

end Value

namespace Change

variable {now : Instant} {c : Change} {filter doc changed id : Value}
  {fields : List (String × Value)}

/-- The value that a change is made of is well-formed. -/
def WellFormed : Change → Prop
  | .update spec => spec.WellFormed
  | .replace replacement => replacement.WellFormed

theorem storable_content (hc : c.WellFormed) (hdoc : doc.WellFormed)
    (h : c.content now doc = .ok changed) : changed.Storable := by
  cases c with
  | update spec => exact Update.storable_apply hc hdoc h
  | replace replacement =>
      rw [content] at h
      split at h
      · next hobject =>
          cases h
          exact ⟨hc, hobject⟩
      · cases h

/-! ## The identifier afterwards -/

/-- The identifier that fields have once it is restored. -/
def keptId (id : Value) (fields : List (String × Value)) : Value :=
  match Fields.get? idKey fields with
  | some new => if new.alike id then new else id
  | none => id

theorem get?_restoreId (place : Nat) (hkeys : (Fields.keys fields).Nodup) :
    Fields.get? idKey (restoreId place id fields) =
      some (keptId id fields) := by
  rw [restoreId, keptId]
  cases hget : Fields.get? idKey fields with
  | none =>
      have hnew := Fields.get?_eq_none_iff.mp hget
      have hkeys' :
          (Fields.keys (Fields.insertAt place idKey id fields)).Nodup :=
        Fields.nodup_keys_insertAt hnew hkeys
      exact (Fields.get?_eq_some_iff hkeys').mpr
        (Fields.mem_insertAt.mpr (.inl rfl))
  | some new =>
      dsimp only
      split
      · exact hget
      · exact Fields.get?_insert_self _ _ _

theorem wellFormed_restoreId (place : Nat) (hid : id.WellFormed)
    (hfields : (Value.object fields).WellFormed) :
    (Value.object (restoreId place id fields)).WellFormed := by
  rw [restoreId]
  split
  · split
    · exact hfields
    · exact hfields.insert _ hid
  · next hget =>
      exact hfields.insertAt place (Fields.get?_eq_none_iff.mp hget) hid

theorem keptId_alike (id : Value) (fields : List (String × Value)) :
    keptId id fields = id ∨ (keptId id fields).alike id = true := by
  rw [keptId]
  split
  · split
    · next h => exact .inr h
    · exact .inl rfl
  · exact .inl rfl

theorem keptId_eq_string_iff {s : String} :
    keptId id fields = .string s ↔ id = .string s := by
  rcases keptId_alike id fields with h | h
  · rw [h]
  · refine ⟨fun heq => ?_, fun heq => ?_⟩
    · rw [heq] at h
      exact Value.string_alike_iff.mp h
    · rw [heq] at h ⊢
      exact Value.alike_string_iff.mp h

theorem isNull_keptId (h : id.isNull = false) :
    (keptId id fields).isNull = false := by
  rcases keptId_alike id fields with hkept | hkept
  · rw [hkept]
    exact h
  · exact Value.isNull_of_alike hkept h

/-- A change that succeeds on a document with an identifier puts the fields of
the new content together with the identifier that they keep. -/
theorem apply_eq (hc : c.WellFormed) (hdoc : doc.WellFormed)
    (hid : doc.field? idKey = some id) (h : c.apply now doc = .ok changed) :
    ∃ fields, c.content now doc = .ok (.object fields) ∧
      changed = .object (restoreId (c.idPlace doc) id fields) := by
  obtain ⟨made, hmade, h⟩ := bind_eq_ok.mp h
  have hobject := (storable_content hc hdoc hmade).isObject
  obtain ⟨fields, rfl⟩ := Value.exists_fields_of_isObject hobject
  rw [hid] at h
  cases h
  exact ⟨fields, hmade, rfl⟩

/-- Whether the document has an identifier or not. -/
theorem wellFormed_apply (hc : c.WellFormed) (hdoc : doc.WellFormed)
    (h : c.apply now doc = .ok changed) : changed.WellFormed := by
  cases hid : doc.field? idKey with
  | none =>
      obtain ⟨made, hmade, h⟩ := bind_eq_ok.mp h
      rw [hid] at h
      cases h
      exact (storable_content hc hdoc hmade).wellFormed
  | some id =>
      obtain ⟨fields, hcontent, rfl⟩ := apply_eq hc hdoc hid h
      have hfields := (storable_content hc hdoc hcontent).wellFormed
      exact wellFormed_restoreId _ (hdoc.field? hid) hfields

theorem field?_apply (hc : c.WellFormed) (hdoc : doc.WellFormed)
    (hid : doc.field? idKey = some id) (h : c.apply now doc = .ok changed) :
    ∃ fields, c.content now doc = .ok (.object fields) ∧
      changed.field? idKey = some (keptId id fields) := by
  obtain ⟨fields, hcontent, rfl⟩ := apply_eq hc hdoc hid h
  have hwf := (storable_content hc hdoc hcontent).wellFormed
  exact ⟨fields, hcontent,
    get?_restoreId _ (Value.wellFormed_object_iff.mp hwf).1⟩

/-- A change keeps documents with identifiers among themselves. -/
theorem identified_apply (hc : c.WellFormed) (hdoc : doc.Identified)
    (h : c.apply now doc = .ok changed) : changed.Identified := by
  obtain ⟨id, hid, hnull⟩ := hdoc.hasId
  obtain ⟨kept, -, hkept⟩ := field?_apply hc hdoc.wellFormed hid h
  obtain ⟨fields, hcontent, rfl⟩ := apply_eq hc hdoc.wellFormed hid h
  have hwf := (storable_content hc hdoc.wellFormed hcontent).wellFormed
  exact ⟨⟨wellFormed_restoreId _ (hdoc.wellFormed.field? hid) hwf, rfl⟩, _, hkept,
    isNull_keptId hnull⟩

/-- The identifier is a certain string after a change if and only if it was. -/
theorem field?_apply_eq_string_iff {s : String} (hc : c.WellFormed)
    (hdoc : doc.WellFormed) (hid : doc.field? idKey = some id)
    (h : c.apply now doc = .ok changed) :
    changed.field? idKey = some (.string s) ↔
      doc.field? idKey = some (.string s) := by
  obtain ⟨fields, -, hkept⟩ := field?_apply hc hdoc hid h
  rw [hkept, hid, Option.some.injEq, Option.some.injEq, keptId_eq_string_iff]

/-! ## Identifiers written anew -/

/-- What stands in the place of a document once it is changed: one that would be
the same stays, and so does one of which the change fails. -/
def version (now : Instant) (c : Change) (doc : Value) : Value :=
  match c.apply now doc with
  | .ok changed => if changed.same doc then doc else changed
  | .error _ => doc

theorem version_of_apply (h : c.apply now doc = .ok changed) :
    c.version now doc = if changed.same doc then doc else changed := by
  rw [version, h]

/-- The change makes another document of this one. -/
def rewrites (now : Instant) (c : Change) (doc : Value) : Bool :=
  match c.apply now doc with
  | .ok changed => !changed.same doc
  | .error _ => false

theorem rewrites_of_apply (h : c.apply now doc = .ok changed) :
    c.rewrites now doc = !changed.same doc := by
  rw [rewrites, h]

/-- What a change makes of a document is the same as what stands in its
place. -/
theorem same_version (hc : c.WellFormed) (hdoc : doc.WellFormed)
    (h : c.apply now doc = .ok changed) :
    changed.same (c.version now doc) = true := by
  rw [version, h]
  dsimp only
  split
  · next hsame => exact hsame
  · exact (wellFormed_apply hc hdoc h).same_self

/-- The new content of a document has an identifier that is alike to the old one
but does not equal it, so it passes for the old one. -/
def Respells (now : Instant) (c : Change) (doc : Value) : Prop :=
  ∃ id content new, doc.field? idKey = some id ∧
    c.content now doc = .ok content ∧
    content.field? idKey = some new ∧ new.alike id = true ∧ new ≠ id ∧
    content.same doc = false

/-- Restoring the identifier does not fail. -/
theorem apply_of_content {content : Value}
    (h : c.content now doc = .ok content) :
    ∃ changed, c.apply now doc = .ok changed := by
  rw [apply, h]
  cases doc.field? idKey with
  | none => exact ⟨content, rfl⟩
  | some id =>
      cases content with
      | object fields => exact ⟨_, rfl⟩
      | null => exact ⟨_, rfl⟩
      | bool b => exact ⟨_, rfl⟩
      | number n => exact ⟨_, rfl⟩
      | string s => exact ⟨_, rfl⟩
      | array items => exact ⟨_, rfl⟩

theorem restoreId_of_alike (place : Nat) {new : Value}
    (hget : Fields.get? idKey fields = some new)
    (halike : new.alike id = true) : restoreId place id fields = fields := by
  rw [restoreId, hget]
  dsimp only
  rw [if_pos halike]

theorem keptId_eq_iff : keptId id fields = id ↔
    ∀ new, Fields.get? idKey fields = some new → new.alike id = true →
      new = id := by
  rw [keptId]
  cases hget : Fields.get? idKey fields with
  | none => simp
  | some new =>
      dsimp only
      split
      · next halike =>
          refine ⟨fun heq found hfound _ => ?_, fun hall => hall new rfl halike⟩
          rw [← Option.some.inj hfound]
          exact heq
      · next halike =>
          refine iff_of_true rfl ?_
          intro found hfound h
          rw [← Option.some.inj hfound] at h
          exact absurd h halike

theorem identified_version (hc : c.WellFormed) (hdoc : doc.Identified) :
    (c.version now doc).Identified := by
  rw [version]
  split
  · next changed happly =>
      split
      · exact hdoc
      · exact identified_apply hc hdoc happly
  · exact hdoc

/-- A document keeps its very identifier unless the change writes it anew. -/
theorem field?_version_iff (hc : c.WellFormed) (hdoc : doc.Identified) :
    (c.version now doc).field? idKey = doc.field? idKey ↔
      ¬ c.Respells now doc := by
  obtain ⟨id, hid, -⟩ := hdoc.hasId
  rw [version]
  cases happly : c.apply now doc with
  | error e =>
      refine iff_of_true rfl ?_
      rintro ⟨_, content, _, -, hcontent, -⟩
      obtain ⟨changed, hchanged⟩ := apply_of_content hcontent
      rw [happly] at hchanged
      cases hchanged
  | ok changed =>
      obtain ⟨fields, hcontent, hchanged⟩ :=
        apply_eq hc hdoc.wellFormed hid happly
      have hrespells : c.Respells now doc ↔
          ∃ new, Fields.get? idKey fields = some new ∧
          new.alike id = true ∧ new ≠ id ∧ changed.same doc = false := by
        refine ⟨?_, ?_⟩
        · rintro ⟨id', content, new, hid', hcontent', hnew, halike, hne, hsame⟩
          rw [hid, Option.some.injEq] at hid'
          rw [hcontent, Except.ok.injEq] at hcontent'
          subst hid' hcontent'
          rw [hchanged, restoreId_of_alike _ hnew halike]
          exact ⟨new, hnew, halike, hne, hsame⟩
        · rintro ⟨new, hnew, halike, hne, hsame⟩
          rw [hchanged, restoreId_of_alike _ hnew halike] at hsame
          exact ⟨id, _, new, hid, hcontent, hnew, halike, hne, hsame⟩
      rw [hrespells]
      dsimp only
      cases hsame : changed.same doc with
      | true => simp
      | false =>
          obtain ⟨kept, hkept, hfield⟩ :=
            field?_apply hc hdoc.wellFormed hid happly
          rw [hcontent, Except.ok.injEq, Value.object.injEq] at hkept
          subst hkept
          rw [if_neg Bool.false_ne_true, hfield, hid, Option.some.injEq,
            keptId_eq_iff]
          simp

/-! ## Documents brought about -/

theorem storable_seed (h : filter.WellFormed) : (seed filter).Storable := by
  cases filter with
  | object fields => exact ⟨h.of_sublist List.filter_sublist, rfl⟩
  | null => exact ⟨Value.wellFormed_emptyObject, rfl⟩
  | bool b => exact ⟨Value.wellFormed_emptyObject, rfl⟩
  | number n => exact ⟨Value.wellFormed_emptyObject, rfl⟩
  | string s => exact ⟨Value.wellFormed_emptyObject, rfl⟩
  | array items => exact ⟨Value.wellFormed_emptyObject, rfl⟩

theorem storable_setFields (hdoc : doc.Storable)
    (hfields : ∀ entry ∈ fields, entry.2.WellFormed)
    (h : setFields fields doc = .ok changed) : changed.Storable := by
  induction fields generalizing doc with
  | nil =>
      cases h
      exact hdoc
  | cons entry rest ih =>
      obtain ⟨path, -, h⟩ := bind_eq_ok.mp h
      obtain ⟨next, hnext, h⟩ := bind_eq_ok.mp h
      have hentry := hfields entry List.mem_cons_self
      exact ih (Update.storable_set hdoc hentry hnext)
        (fun e he => hfields e (List.mem_cons_of_mem _ he)) h

theorem wellFormed_onInsert {spec : Value} (h : spec.WellFormed) :
    ∀ entry ∈ Update.onInsert spec, entry.2.WellFormed := by
  rw [Update.onInsert]
  cases hget : spec.field? "$setOnInsert" with
  | none => exact fun entry hentry => nomatch hentry
  | some operand =>
      have hoperand := h.field? hget
      cases operand with
      | object fields => exact (Value.wellFormed_object_iff.mp hoperand).2
      | null => exact fun entry hentry => nomatch hentry
      | bool b => exact fun entry hentry => nomatch hentry
      | number n => exact fun entry hentry => nomatch hentry
      | string s => exact fun entry hentry => nomatch hentry
      | array items => exact fun entry hentry => nomatch hentry

theorem storable_withIdOf (hfilter : filter.WellFormed) (hdoc : doc.Storable) :
    (withIdOf filter doc).Storable := by
  unfold withIdOf
  split
  · next id fields hid hnone =>
      split
      · exact hdoc
      · have hkey := Fields.get?_eq_none_iff.mp hnone
        exact ⟨hdoc.wellFormed.insertAt 0 hkey (hfilter.field? hid), rfl⟩
  · exact hdoc

/-- What a change brings about is a well-formed object. -/
theorem storable_upsertDocument (hc : c.WellFormed)
    (hfilter : filter.WellFormed) (h : c.upsertDocument now filter = .ok doc) :
    doc.Storable := by
  cases c with
  | update spec =>
      obtain ⟨start, hstart, h⟩ := bind_eq_ok.mp h
      have hseed := storable_setFields (storable_seed hfilter)
        (wellFormed_onInsert hc) hstart
      exact Update.storable_apply hc hseed.wellFormed h
  | replace replacement =>
      obtain ⟨made, hmade, heq⟩ := bind_eq_ok.mp h
      cases heq
      obtain ⟨content, hcontent, heq⟩ := bind_eq_ok.mp hmade
      cases heq
      exact storable_withIdOf hfilter
        (storable_content hc Value.wellFormed_emptyObject hcontent)

end Change

end DocumentStore
