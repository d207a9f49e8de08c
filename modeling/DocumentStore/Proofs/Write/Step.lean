import DocumentStore.Bulk
import DocumentStore.Proofs.Change
import DocumentStore.Proofs.Run
import DocumentStore.Proofs.Value.Depth
import Mathlib.Logic.Relation

/-!
# The steps of a write

Whatever a write does to a batch, it does it in steps of four kinds: it takes
new identifiers from the supply, it adds one document at the end, it changes one
document in its place, or it takes documents away and builds the index anew. A
write that fails has made the steps up to its failure. So a property of batches
that each kind of step preserves holds after every write, failed or not, and
`Leads Steps` is what is proved of the writes here.

`insert_spec`, `change_cons` and the equations named `exec_` say what each write
does exactly, whether its arguments are well-formed or not.
-/

namespace DocumentStore

open Relation

/-- One step of a write whose arguments are well-formed. -/
inductive Batch.Step : Batch → Batch → Prop
  | supply (batch : Batch) (ids : IdSupply) : Step batch { batch with ids }
  | append (batch : Batch) (id doc : Value) (hdoc : doc.Storable)
      (hid : doc.field? idKey = some id) (hnull : id.isNull = false)
      (hnew : batch.index.contains id = false) :
      Step batch { batch with
        docs := batch.docs ++ [doc],
          index := batch.index.enter id batch.docs.length }
  | replace (batch : Batch) (now : Instant) (c : Change) (place : Nat)
      (doc changed : Value)
      (hc : c.WellFormed) (hget : batch.docs[place]? = some doc)
      (happly : c.apply now doc = .ok changed) :
      Step batch { batch with docs := batch.docs.set place changed }
  | delete (batch : Batch) (left : List Value)
      (hsub : left.Sublist batch.docs) :
      Step batch { batch with docs := left, index := IdIndex.build left }

/-- Steps one after another. -/
abbrev Batch.Steps : Batch → Batch → Prop := ReflTransGen Batch.Step

namespace Write

variable {now : Instant} {c : Change} {batch : Batch} {doc filter : Value}

theorem leads_bind {m : Write α} {f : α → Write β} (hm : Leads Batch.Steps m)
    (hf : ∀ a, Leads Batch.Steps (f a)) : Leads Batch.Steps (m >>= f) :=
  Leads.bind ReflTransGen.trans hm hf

theorem leads_pure (a : α) : Leads Batch.Steps (pure a : Write α) :=
  fun _ => ReflTransGen.refl

/-! ## Inserting -/

/-- A document as it is stored, with the identifier that it has there: its own,
or a new one. -/
structure Named (doc made id : Value) : Prop where
  field : made.field? idKey = some id
  proper : id.isNull = false
  storable : doc.WellFormed → made.Storable
  depth_eq : made.depth = doc.depth

/-- Neither a string nor the null that it takes the place of has parts. -/
theorem depth_insert_string {fields : List (String × Value)} {key : String}
    (hnull : ∀ v, Fields.get? key fields = some v → v.isNull = true)
    (s : String) :
    (Value.object (Fields.insert key (.string s) fields)).depth =
      (Value.object fields).depth := by
  have hdepth : ∀ v : Value, v.isNull = true → v.depth = 0 := by
    intro v hv
    cases v with
    | null => rfl
    | bool b => rfl
    | number n => rfl
    | string s => rfl
    | array items => cases hv
    | object fields => cases hv
  refine congrArg (· + 1) (Nat.le_antisymm ?_ ?_)
  · refine Value.depthOfFields_le_iff.mpr fun entry hentry => ?_
    rcases Fields.mem_insert hentry with rfl | hentry
    · exact Nat.zero_le _
    · exact Value.depthOfFields_le_iff.mp (Nat.le_refl _) entry hentry
  · refine Value.depthOfFields_le_iff.mpr fun entry hentry => ?_
    rcases Fields.mem_insert_or_get? hentry with hentry | hget
    · exact Value.depthOfFields_le_iff.mp (Nat.le_refl _) entry hentry
    · rw [hdepth _ (hnull _ hget)]
      exact Nat.zero_le _

theorem named_assign {fields : List (String × Value)}
    (hnull : ∀ id, Fields.get? idKey fields = some id → id.isNull = true)
    (s : String) :
    Named (.object fields) (.object (Fields.insert idKey (.string s) fields))
      (.string s) where
  field := Fields.get?_insert_self _ _ _
  proper := rfl
  storable hdoc := ⟨hdoc.insert idKey (Value.wellFormed_string s), rfl⟩
  depth_eq := depth_insert_string hnull s

/-- The document and the supply decide which identifier there is, and whether
there can be one. -/
theorem ensureId_cases (doc : Value) (ids : IdSupply) :
    (∀ docs index, exec (ensureId doc) ⟨docs, index, ids⟩ =
        (.error (.typeMismatch .document), ⟨docs, index, ids⟩)) ∨
      ∃ id made rest, Named doc made id ∧ ∀ docs index,
        exec (ensureId doc) ⟨docs, index, ids⟩ =
          (.ok (id, made), ⟨docs, index, rest⟩) := by
  cases doc with
  | object fields =>
      have hassign : ∀ docs index, exec (assignId fields) ⟨docs, index, ids⟩ =
          (.ok (ids.id, .object (Fields.insert idKey ids.id fields)),
            ⟨docs, index, ids.rest⟩) :=
        fun docs index => rfl
      rw [ensureId]
      cases hget : Fields.get? idKey fields with
      | none =>
          have hnone : ∀ id, Fields.get? idKey fields = some id →
              id.isNull = true := by
            intro id h
            rw [hget] at h
            cases h
          exact .inr ⟨_, _, _, named_assign hnone (ids.nth ids.next), hassign⟩
      | some found =>
          dsimp only
          split
          · next hfound =>
              have hnull : ∀ id, Fields.get? idKey fields = some id →
                  id.isNull = true := by
                intro id h
                rw [hget] at h
                cases h
                exact hfound
              exact .inr ⟨_, _, _,
                named_assign hnull (ids.nth ids.next), hassign⟩
          · next hfound =>
              have hnamed : Named (.object fields) (.object fields) found :=
                ⟨hget, by simpa using hfound, fun hdoc => ⟨hdoc, rfl⟩, rfl⟩
              exact .inr ⟨_, _, ids, hnamed, fun docs index => rfl⟩
  | null => exact .inl fun docs index => rfl
  | bool b => exact .inl fun docs index => rfl
  | number n => exact .inl fun docs index => rfl
  | string s => exact .inl fun docs index => rfl
  | array items => exact .inl fun docs index => rfl

/-- What is inserted is decided by the document and the supply; all that the
documents and the index do to it is that the identifier must be new. -/
theorem insert_spec (doc : Value) (ids : IdSupply) :
    (∀ docs index, exec (insert doc) ⟨docs, index, ids⟩ =
        (.error (.typeMismatch .document), ⟨docs, index, ids⟩)) ∨
      ∃ id made rest, Named doc made id ∧ ∀ docs index,
        exec (insert doc) ⟨docs, index, ids⟩ =
          if index.contains id then (.error (.duplicateId id),
            ⟨docs, index, rest⟩)
          else (.ok id, ⟨docs ++ [made], index.enter id docs.length, rest⟩) := by
  rcases ensureId_cases doc ids with hrun | ⟨id, made, rest, hnamed, hrun⟩
  · refine .inl fun docs index => ?_
    rw [insert, exec_bind, hrun]
  · refine .inr ⟨id, made, rest, hnamed, fun docs index => ?_⟩
    rw [insert, exec_bind, hrun]
    dsimp only
    rw [exec_bind, exec_get]
    dsimp only
    cases index.contains id with
    | true => rfl
    | false => rfl

/-- Inserting fails and leaves the documents and the index alone, or it adds one
document with a new identifier. -/
theorem insert_cases (doc : Value) (batch : Batch) :
    (∃ e ids, exec (insert doc) batch = (.error e, { batch with ids })) ∨
      ∃ id made ids, exec (insert doc) batch = (.ok id,
          { docs := batch.docs ++ [made],
            index := batch.index.enter id batch.docs.length, ids }) ∧
        Named doc made id ∧ batch.index.contains id = false := by
  obtain ⟨docs, index, ids⟩ := batch
  rcases insert_spec doc ids with hrun | ⟨id, made, rest, hnamed, hrun⟩
  · exact .inl ⟨_, ids, hrun docs index⟩
  · rw [hrun]
    cases hcontains : index.contains id with
    | true => exact .inl ⟨.duplicateId id, rest, rfl⟩
    | false => exact .inr ⟨id, made, rest, rfl, hnamed, hcontains⟩

/-- Inserting fails for a value that is no object, or for an identifier that is
there. -/
theorem error_of_insert {e : Error} {left : Batch}
    (h : exec (insert doc) batch = (.error e, left)) :
    e = .typeMismatch .document ∨ ∃ id, e = .duplicateId id := by
  obtain ⟨docs, index, ids⟩ := batch
  rcases insert_spec doc ids with hrun | ⟨id, made, rest, -, hrun⟩
  · rw [hrun] at h
    cases h
    exact .inl rfl
  · rw [hrun] at h
    split at h
    · cases h
      exact .inr ⟨id, rfl⟩
    · cases h

theorem error_of_insertAll {e : Error} {left : Batch} {docs : List Value}
    (h : exec (docs.mapM insert) batch = (.error e, left)) :
    e = .typeMismatch .document ∨ ∃ id, e = .duplicateId id := by
  induction docs generalizing batch with
  | nil => cases h
  | cons doc rest ih =>
      rw [List.mapM_cons] at h
      rcases exec_bind_eq_error.mp h with hfirst | ⟨id, mid, -, hrest⟩
      · exact error_of_insert hfirst
      · rcases exec_bind_eq_error.mp hrest with hmore | ⟨more, last, -, hpure⟩
        · exact ih hmore
        · cases hpure

theorem leads_insert (hdoc : doc.WellFormed) :
    Leads Batch.Steps (insert doc) := by
  intro batch
  rcases insert_cases doc batch with
    ⟨e, ids, hrun⟩ | ⟨id, made, ids, hrun, hnamed, hnew⟩
  · rw [hrun]
    exact ReflTransGen.single (.supply batch ids)
  · rw [hrun]
    have happend := Batch.Step.append batch id made
      (hnamed.storable hdoc) hnamed.field hnamed.proper hnew
    exact (ReflTransGen.single happend).tail (.supply _ ids)

theorem leads_insertAll (docs : List Value)
    (hdocs : ∀ doc ∈ docs, doc.WellFormed) :
    Leads Batch.Steps (docs.mapM insert) := by
  induction docs with
  | nil => exact leads_pure _
  | cons doc rest ih =>
      rw [List.mapM_cons]
      exact leads_bind (leads_insert (hdocs doc List.mem_cons_self)) fun id =>
        leads_bind (ih fun d hd => hdocs d (List.mem_cons_of_mem _ hd))
          fun ids => leads_pure _

/-! ## Updating -/

theorem change_cons (place : Nat) (rest : List Nat) (batch : Batch) :
    exec (change now c (place :: rest)) batch =
      match batch.docs[place]? with
      | none => exec (change now c rest) batch
      | some doc =>
          match c.apply now doc with
          | .error e => (.error e, batch)
          | .ok changed =>
              if changed.same doc then exec (change now c rest) batch
              else
                exec (change now c rest >>= fun others => pure (others + 1))
                  { batch with docs := batch.docs.set place changed } := by
  rw [change, exec_bind, exec_get]
  dsimp only
  cases batch.docs[place]? with
  | none => rfl
  | some doc =>
      dsimp only
      rw [exec_bind, ofResult, exec_mk]
      cases c.apply now doc with
      | error e => rfl
      | ok changed =>
          dsimp only
          split
          · rfl
          · rw [exec_bind, exec_set]

theorem leads_change (hc : c.WellFormed) (places : List Nat) :
    Leads Batch.Steps (change now c places) := by
  induction places with
  | nil => exact leads_pure 0
  | cons place rest ih =>
      intro batch
      rw [change_cons]
      cases hget : batch.docs[place]? with
      | none => exact ih batch
      | some doc =>
          dsimp only
          cases happly : c.apply now doc with
          | error e => exact ReflTransGen.refl
          | ok changed =>
              dsimp only
              split
              · exact ih batch
              · have hmore : Leads Batch.Steps
                    (change now c rest >>= fun others =>
                      pure (others + 1) : Write Nat) :=
                  leads_bind ih fun others => leads_pure _
                exact (hmore _).head
                  (.replace batch now c place doc changed hc hget happly)

/-- Bringing a document about fails and leaves the documents and the index
alone, or it adds one document, to which the index then leads. -/
theorem bringAbout_cases (now : Instant) (filter : Value) (c : Change)
    (batch : Batch) :
    (∃ e ids, exec (bringAbout now filter c) batch =
        (.error e, { batch with ids })) ∨
      ∃ id made ids, exec (bringAbout now filter c) batch = (.ok id,
        { docs := batch.docs ++ [made],
          index := batch.index.enter id batch.docs.length, ids }) := by
  rw [bringAbout, exec_bind, ofResult, exec_mk]
  cases c.upsertDocument now filter with
  | error e => exact .inl ⟨e, batch.ids, rfl⟩
  | ok doc =>
      rcases insert_cases doc batch with hfails | ⟨id, made, ids, hrun, -⟩
      · exact .inl hfails
      · exact .inr ⟨id, made, ids, hrun⟩

theorem leads_bringAbout (hc : c.WellFormed) (hfilter : filter.WellFormed) :
    Leads Batch.Steps (bringAbout now filter c) := by
  intro batch
  rw [bringAbout, exec_bind, ofResult, exec_mk]
  cases hdoc : c.upsertDocument now filter with
  | error e => exact ReflTransGen.refl
  | ok doc =>
      exact leads_insert
        (Change.storable_upsertDocument hc hfilter hdoc).wellFormed batch

theorem exec_update (filter : Value) (c : Change) (many upsert : Bool)
    (batch : Batch) :
    exec (update now filter c many upsert) batch =
      match places batch filter many with
      | .error e => (.error e, batch)
      | .ok found =>
          match exec (change now c found) batch with
          | (.error e, after) => (.error e, after)
          | (.ok modified, after) =>
              if found.isEmpty && upsert then
                exec (bringAbout now filter c >>= fun id =>
                  pure ⟨0, modified, some id⟩) after
              else (.ok ⟨found.length, modified, none⟩, after) := by
  rw [update, exec_bind, exec_get]
  dsimp only
  rw [exec_bind, ofResult, exec_mk]
  cases places batch filter many with
  | error e => rfl
  | ok found =>
      dsimp only
      rw [exec_bind]
      cases exec (change now c found) batch with
      | mk outcome after =>
          cases outcome with
          | error e => rfl
          | ok modified =>
              dsimp only
              split
              · rfl
              · rfl

theorem leads_update (hc : c.WellFormed) (hfilter : filter.WellFormed)
    (many upsert : Bool) :
    Leads Batch.Steps (update now filter c many upsert) := by
  intro batch
  rw [exec_update]
  cases places batch filter many with
  | error e => exact ReflTransGen.refl
  | ok found =>
      dsimp only
      have hchange : batch.Steps (exec (change now c found) batch).2 :=
        leads_change hc found batch
      cases hrun : exec (change now c found) batch with
      | mk outcome after =>
          rw [hrun] at hchange
          cases outcome with
          | error e => exact hchange
          | ok modified =>
              dsimp only
              split
              · exact hchange.trans
                  (leads_bind (leads_bringAbout hc hfilter)
                    (fun id => leads_pure _) after)
              · exact hchange

theorem exec_revise (filter : Value) (c : Change) (upsert : Bool)
    (batch : Batch) :
    exec (revise now filter c upsert) batch =
      match places batch filter false with
      | .error e => (.error e, batch)
      | .ok found =>
          match found.head?.bind fun place =>
            (batch.docs[place]?).map (place, ·) with
          | some (place, before) =>
              match c.apply now before with
              | .error e => (.error e, batch)
              | .ok changed =>
                  if changed.same before then (.ok ⟨some before, some changed,
                    false⟩, batch)
                  else
                    (.ok ⟨some before, some changed, true⟩,
                      { batch with docs := batch.docs.set place changed })
          | none =>
              if upsert then
                exec (bringAbout now filter c >>= fun id => do
                  let batch ← get
                  return ⟨none, (batch.index.find? id).bind (batch.docs[·]?),
                    true⟩) batch
              else (.ok ⟨none, none, false⟩, batch) := by
  rw [revise, exec_bind, exec_get]
  dsimp only
  rw [exec_bind, ofResult, exec_mk]
  cases places batch filter false with
  | error e => rfl
  | ok found =>
      dsimp only
      cases found.head?.bind fun place =>
        (batch.docs[place]?).map (place, ·) with
      | none =>
          dsimp only
          split
          · rfl
          · rfl
      | some chosen =>
          obtain ⟨place, before⟩ := chosen
          dsimp only
          rw [exec_bind, ofResult, exec_mk]
          cases c.apply now before with
          | error e => rfl
          | ok changed =>
              dsimp only
              split
              · rfl
              · rfl

/-- The document that is revised stands at its place. -/
theorem getElem?_of_found {found : List Nat} {docs : List Value} {place : Nat}
    {before : Value}
    (h : (found.head?.bind fun place => (docs[place]?).map (place, ·)) =
      some (place, before)) :
    found.head? = some place ∧ docs[place]? = some before := by
  obtain ⟨first, hfirst, h⟩ := Option.bind_eq_some_iff.mp h
  obtain ⟨doc, hdoc, heq⟩ := Option.map_eq_some_iff.mp h
  cases heq
  exact ⟨hfirst, hdoc⟩

theorem leads_revise (hc : c.WellFormed) (hfilter : filter.WellFormed)
    (upsert : Bool) :
    Leads Batch.Steps (revise now filter c upsert) := by
  intro batch
  rw [exec_revise]
  cases places batch filter false with
  | error e => exact ReflTransGen.refl
  | ok found =>
      dsimp only
      split
      · next place before hfound =>
          have hget := (getElem?_of_found hfound).2
          cases happly : c.apply now before with
          | error e => exact ReflTransGen.refl
          | ok changed =>
              dsimp only
              split
              · exact ReflTransGen.refl
              · exact ReflTransGen.single
                  (.replace batch now c place before changed hc hget happly)
      · split
        · exact leads_bind (leads_bringAbout hc hfilter)
            (fun id => leads_bind (fun _ => ReflTransGen.refl) fun batch =>
              leads_pure _) batch
        · exact ReflTransGen.refl

/-! ## Deleting -/

theorem partitionAt_sublist (place : Nat) (chosen : List Nat) (items : List α) :
    (partitionAt place chosen items).2.Sublist items := by
  induction items generalizing place chosen with
  | nil => cases chosen <;> exact List.Sublist.slnil
  | cons item rest ih =>
      cases chosen with
      | nil => exact List.Sublist.refl _
      | cons first more =>
          rw [partitionAt]
          split
          · exact (ih _ _).cons _
          · exact (ih _ _).cons_cons _

theorem exec_delete (filter : Value) (many : Bool) (batch : Batch) :
    exec (delete filter many) batch =
      match places batch filter many with
      | .error e => (.error e, batch)
      | .ok found =>
          if found.isEmpty then (.ok [], batch)
          else
            (.ok (partitionAt 0 found batch.docs).1,
              { batch with
                docs := (partitionAt 0 found batch.docs).2
                index :=
                  IdIndex.build (partitionAt 0 found batch.docs).2 }) := by
  rw [delete, exec_bind, exec_get]
  dsimp only
  rw [exec_bind, ofResult, exec_mk]
  cases places batch filter many with
  | error e => rfl
  | ok found =>
      dsimp only
      split
      · rfl
      · rfl

theorem leads_delete (filter : Value) (many : Bool) :
    Leads Batch.Steps (delete filter many) := by
  intro batch
  rw [exec_delete]
  cases places batch filter many with
  | error e => exact ReflTransGen.refl
  | ok found =>
      dsimp only
      split
      · exact ReflTransGen.refl
      · exact ReflTransGen.single
          (.delete batch _ (partitionAt_sublist 0 found batch.docs))

end Write

/-! ## Bulk writes -/

namespace WriteModel

/-- The values that an operation is made of are well-formed. -/
def WellFormed : WriteModel → Prop
  | .insertOne document => document.WellFormed
  | .updateOne filter update _ => filter.WellFormed ∧ update.WellFormed
  | .updateMany filter update _ => filter.WellFormed ∧ update.WellFormed
  | .replaceOne filter replacement _ =>
      filter.WellFormed ∧ replacement.WellFormed
  | .deleteOne filter => filter.WellFormed
  | .deleteMany filter => filter.WellFormed

end WriteModel

namespace Bulk

open Write

theorem leads_step {model : WriteModel} (hmodel : model.WellFormed)
    (now : Instant) (place : Nat) (counts : BulkCounts) :
    Leads Batch.Steps (step now place counts model) := by
  cases model with
  | insertOne document =>
      exact leads_bind (leads_insert hmodel) fun id => leads_pure _
  | updateOne filter spec upsert =>
      have hc : (Change.update spec).WellFormed := hmodel.2
      exact leads_bind (leads_update hc hmodel.1 false upsert) fun outcome =>
        leads_pure _
  | updateMany filter spec upsert =>
      have hc : (Change.update spec).WellFormed := hmodel.2
      exact leads_bind (leads_update hc hmodel.1 true upsert) fun outcome =>
        leads_pure _
  | replaceOne filter replacement upsert =>
      have hc : (Change.replace replacement).WellFormed := hmodel.2
      exact leads_bind (leads_update hc hmodel.1 false upsert) fun outcome =>
        leads_pure _
  | deleteOne filter =>
      exact leads_bind (leads_delete filter false) fun taken => leads_pure _
  | deleteMany filter =>
      exact leads_bind (leads_delete filter true) fun taken => leads_pure _

theorem leads_runFrom (models : List WriteModel)
    (hmodels : ∀ model ∈ models, model.WellFormed) (now : Instant) (place : Nat)
    (counts : BulkCounts) :
    Leads Batch.Steps (runFrom now place counts models) := by
  induction models generalizing place counts with
  | nil => exact leads_pure counts
  | cons model rest ih =>
      have hmodel := hmodels model List.mem_cons_self
      exact leads_bind (leads_step hmodel now place counts) fun counts =>
        ih (fun m hm => hmodels m (List.mem_cons_of_mem _ hm))
          (place + 1) counts

theorem leads_run (models : List WriteModel)
    (hmodels : ∀ model ∈ models, model.WellFormed) (now : Instant) :
    Leads Batch.Steps (run now models) :=
  leads_runFrom models hmodels now 0 {}

end Bulk

end DocumentStore
