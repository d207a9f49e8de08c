import DocumentStore.Proofs.Write.Renew
import DocumentStore.Proofs.Write.Sound

/-!
# Identifiers that a change writes anew

A write changes documents at distinct places and leaves all others alone, so
what becomes of an identifier is decided document by document: it stays what it
is, to the letter, unless the change respells it, that is, puts another value in
its place that is alike to it. The result says this of both ways to change
documents in place, and of a bulk write operation by operation.

As long as nothing is respelled, identifiers of any kind have distinct texts and
the index is exact for all of them. Respelling is what ends this: an integer
that is written as a double can meet the text of another document's identifier.
-/

namespace DocumentStore

variable {now : Instant} {c : Change} {filter doc : Value} {docs : List Value}
  {batch after : Batch} {T : String → Prop} {many upsert : Bool}
  {found : List Nat}

namespace Write

/-! ## What becomes of the identifiers -/

/-- The filter finds a document whose identifier the change writes anew. -/
def Respells (now : Instant) (c : Change) (filter : Value) (many : Bool)
    (batch : Batch) : Prop :=
  ∃ found place doc, places batch filter many = .ok found ∧ place ∈ found ∧
    batch.docs[place]? = some doc ∧ c.Respells now doc

/-- Document by document, an identifier is afterwards what it was before, unless
the document is at one of the places and is respelled. -/
def KeepsIds (now : Instant) (c : Change) (found : List Nat)
    (docs later : List Value) : Prop :=
  ∀ i doc, docs[i]? = some doc → ∃ kept, later[i]? = some kept ∧
    (kept.field? idKey = doc.field? idKey ↔ ¬ (i ∈ found ∧ c.Respells now doc))

theorem keepsIds_of_renew {later : List Value} (hc : c.WellFormed)
    (hdocs : ∀ doc ∈ docs, doc.Identified) (hfound : found.Nodup)
    (hlater : renew (c.version now) found docs <+: later) :
    KeepsIds now c found docs later := by
  intro i doc hget
  have hstands : ∀ kept, (renew (c.version now) found docs)[i]? = some kept →
      later[i]? = some kept := by
    intro kept hkept
    obtain ⟨more, rfl⟩ := hlater
    obtain ⟨hlt, -⟩ := List.getElem?_eq_some_iff.mp hkept
    rw [List.getElem?_append_left hlt, hkept]
  have hrenew := getElem?_renew (f := c.version now) hfound docs i
  rw [hget, Option.map_some] at hrenew
  split at hrenew
  · next hi =>
      refine ⟨_, hstands _ hrenew, ?_⟩
      rw [Change.field?_version_iff hc (hdocs doc (List.mem_of_getElem? hget))]
      simp [hi]
  · next hi =>
      refine ⟨_, hstands _ hrenew, ?_⟩
      simp [hi]

theorem identifiers_renew (hc : c.WellFormed)
    (hdocs : ∀ doc ∈ docs, doc.Identified) (hfound : found.Nodup)
    (hplain : ∀ place ∈ found, ∀ doc, docs[place]? = some doc →
      ¬ c.Respells now doc) :
    (renew (c.version now) found docs).map (·.field? idKey) =
      docs.map (·.field? idKey) := by
  refine List.ext_getElem? fun i => ?_
  rw [List.getElem?_map, List.getElem?_map, getElem?_renew hfound]
  cases hget : docs[i]? with
  | none => simp
  | some doc =>
      split
      · next hi =>
          have hdoc := hdocs doc (List.mem_of_getElem? hget)
          exact congrArg some ((Change.field?_version_iff hc hdoc).mpr
            (hplain i hi doc hget))
      · rfl

theorem identified_renew (hc : c.WellFormed)
    (hdocs : ∀ doc ∈ docs, doc.Identified) (hfound : found.Nodup) :
    ∀ doc ∈ renew (c.version now) found docs, doc.Identified := by
  intro doc hdoc
  obtain ⟨i, hi⟩ := List.mem_iff_getElem?.mp hdoc
  rw [getElem?_renew hfound] at hi
  split at hi
  · obtain ⟨old, hold, rfl⟩ := Option.map_eq_some_iff.mp hi
    exact Change.identified_version hc (hdocs old (List.mem_of_getElem? hold))
  · exact hdocs doc (List.mem_of_getElem? hi)

end Write

/-- The batch is sound afterwards, and its identifiers are those from before,
perhaps with more at the end. -/
structure Batch.Extends (T : String → Prop) (batch after : Batch) : Prop where
  sound : after.Sound T
  identifiers : batch.identifiers <+: after.identifiers

theorem Batch.Extends.refl (h : batch.Sound T) : batch.Extends T batch :=
  ⟨h, List.prefix_rfl⟩

theorem Batch.Extends.trans {next : Batch} (h : batch.Extends T next)
    (hnext : next.Extends T after) :
    batch.Extends T after :=
  ⟨hnext.sound, h.identifiers.trans hnext.identifiers⟩

namespace Write

theorem extends_insert (h : batch.Sound T) (hdoc : doc.WellFormed) :
    batch.Extends T (exec (insert doc) batch).2 := by
  refine ⟨?_, (insert_adds doc batch).map _⟩
  rcases insert_cases doc batch with
    ⟨e, ids, hrun⟩ | ⟨id, made, ids, hrun, hnamed, hnew⟩
  · rw [hrun]
    exact h.supply ids
  · rw [hrun]
    exact (h.append (hnamed.storable hdoc) hnamed.field hnamed.proper
      hnew).supply ids

theorem extends_bringAbout (h : batch.Sound T) (hc : c.WellFormed)
    (hfilter : filter.WellFormed) :
    batch.Extends T (exec (bringAbout now filter c) batch).2 := by
  rw [bringAbout, exec_bind, ofResult, exec_mk]
  cases hdoc : c.upsertDocument now filter with
  | error e => exact .refl h
  | ok doc =>
      exact extends_insert h
        (Change.storable_upsertDocument hc hfilter hdoc).wellFormed

theorem extends_renew (h : batch.Sound T) (hc : c.WellFormed)
    (hfound : found.Nodup)
    (hplain : ∀ place ∈ found, ∀ doc, batch.docs[place]? = some doc →
      ¬ c.Respells now doc) :
    batch.Extends T { batch with
      docs := renew (c.version now) found batch.docs } := by
  have hids := identifiers_renew hc h.keyed.identified hfound hplain
  refine ⟨h.of_identifiers rfl
    (identified_renew hc h.keyed.identified hfound) hids, ?_⟩
  show batch.docs.map _ <+: (renew (c.version now) found batch.docs).map _
  rw [hids]

theorem Renews.extends {w : Write α} (hw : Renews now c filter many w)
    (h : batch.Sound T) (hc : c.WellFormed) (hfilter : filter.WellFormed)
    (hplain : ¬ Respells now c filter many batch) :
    batch.Extends T (exec w batch).2 := by
  rcases hw batch with ⟨e, hrun⟩ | ⟨found, done, hfound, hdone, -, hafter⟩
  · rw [hrun]
    exact .refl h
  · have hrenew : batch.Extends T { batch with
        docs := renew (c.version now) done batch.docs } := by
      refine extends_renew h hc ((nodup_places hfound).sublist hdone.sublist) ?_
      intro place hplace doc hget hrespells
      exact hplain ⟨found, place, doc, hfound, hdone.subset hplace,
        hget, hrespells⟩
    rcases hafter with hafter | hafter
    · rw [hafter]
      exact hrenew
    · rw [hafter]
      exact hrenew.trans (extends_bringAbout hrenew.sound hc hfilter)

theorem Renews.keepsIds {w : Write α} {a : α} (hw : Renews now c filter many w)
    (hdocs : ∀ doc ∈ batch.docs, doc.Identified) (hc : c.WellFormed)
    (hrun : exec w batch = (.ok a, after)) :
    ∃ found, places batch filter many = .ok found ∧
      KeepsIds now c found batch.docs after.docs := by
  rcases hw batch with ⟨e, herror⟩ | ⟨found, done, hfound, -, hok, hafter⟩
  · rw [hrun] at herror
    cases herror
  · rw [hrun] at hok hafter
    have hdone := hok a rfl
    subst hdone
    refine ⟨done, hfound, keepsIds_of_renew hc hdocs (nodup_places hfound) ?_⟩
    dsimp only at hafter
    rcases hafter with hafter | hafter
    · rw [hafter]
    · rw [hafter]
      exact bringAbout_adds now filter c { batch with
        docs := renew (c.version now) done batch.docs }

theorem sound_delete (h : batch.Sound T) (filter : Value) (many : Bool) :
    (exec (delete filter many) batch).2.Sound T := by
  rw [exec_delete]
  cases places batch filter many with
  | error e => exact h
  | ok found =>
      dsimp only
      split
      · exact h
      · exact h.delete (partitionAt_sublist 0 found batch.docs)

end Write

/-! ## Bulk writes -/

namespace WriteModel

/-- The operation respells an identifier if it is run on a batch. -/
def Respells (now : Instant) (batch : Batch) : WriteModel → Prop
  | .updateOne filter spec _ =>
      Write.Respells now (.update spec) filter false batch
  | .updateMany filter spec _ =>
      Write.Respells now (.update spec) filter true batch
  | .replaceOne filter replacement _ =>
      Write.Respells now (.replace replacement) filter false batch
  | .insertOne _ | .deleteOne _ | .deleteMany _ => False

def Deletes : WriteModel → Prop
  | .deleteOne _ | .deleteMany _ => True
  | .insertOne _ | .updateOne .. | .updateMany .. | .replaceOne .. => False

end WriteModel

namespace Bulk

open Write

/-- One of the operations respells an identifier in the batch that it finds. -/
def RespellsFrom (now : Instant) (place : Nat) (counts : BulkCounts) :
    List WriteModel → Batch → Prop
  | [], _ => False
  | model :: rest, batch =>
      model.Respells now batch ∨
        ∃ next after, exec (step now place counts model) batch =
          (.ok next, after) ∧
          RespellsFrom now (place + 1) next rest after

def Respells (now : Instant) (models : List WriteModel)
    (batch : Batch) : Prop :=
  RespellsFrom now 0 {} models batch

theorem step_spec (h : batch.Sound T) {model : WriteModel}
    (hmodel : model.WellFormed) (hplain : ¬ model.Respells now batch)
    (place : Nat) (counts : BulkCounts) :
    (exec (step now place counts model) batch).2.Sound T ∧
      (¬ model.Deletes → batch.identifiers <+:
        (exec (step now place counts model) batch).2.identifiers) := by
  have hextends : ∀ {after : Batch}, batch.Extends T after →
      after.Sound T ∧
        (¬ model.Deletes → batch.identifiers <+: after.identifiers) :=
    fun h => ⟨h.sound, fun _ => h.identifiers⟩
  cases model with
  | insertOne document =>
      rw [step, exec_bind_snd fun id t => rfl]
      exact hextends (extends_insert h hmodel)
  | updateOne filter spec upsert =>
      rw [step, exec_bind_snd fun outcome t => rfl]
      exact hextends ((renews_update now filter (.update spec) _ upsert).extends
        h hmodel.2 hmodel.1 hplain)
  | updateMany filter spec upsert =>
      rw [step, exec_bind_snd fun outcome t => rfl]
      exact hextends ((renews_update now filter (.update spec) _ upsert).extends
        h hmodel.2 hmodel.1 hplain)
  | replaceOne filter replacement upsert =>
      rw [step, exec_bind_snd fun outcome t => rfl]
      exact hextends
        ((renews_update now filter (.replace replacement) _ upsert).extends h
          hmodel.2 hmodel.1 hplain)
  | deleteOne filter =>
      rw [step, exec_bind_snd fun taken t => rfl]
      exact ⟨sound_delete h filter false,
        fun hdeletes => absurd trivial hdeletes⟩
  | deleteMany filter =>
      rw [step, exec_bind_snd fun taken t => rfl]
      exact ⟨sound_delete h filter true,
        fun hdeletes => absurd trivial hdeletes⟩

theorem runFrom_spec (h : batch.Sound T) {models : List WriteModel}
    (hmodels : ∀ model ∈ models, model.WellFormed) {place : Nat}
    {counts : BulkCounts}
    (hplain : ¬ RespellsFrom now place counts models batch) :
    (exec (runFrom now place counts models) batch).2.Sound T ∧
      ((∀ model ∈ models, ¬ model.Deletes) →
        batch.identifiers <+:
          (exec (runFrom now place counts models) batch).2.identifiers) := by
  induction models generalizing batch place counts with
  | nil => exact ⟨h, fun _ => List.prefix_rfl⟩
  | cons model rest ih =>
      rw [RespellsFrom, not_or] at hplain
      obtain ⟨hfirst, hrest⟩ := hplain
      obtain ⟨hsound, hids⟩ :=
        step_spec h (hmodels model List.mem_cons_self) hfirst place counts
      rw [runFrom, exec_bind]
      cases hrun : exec (step now place counts model) batch with
      | mk outcome after =>
          rw [hrun] at hsound hids
          cases outcome with
          | error e =>
              exact ⟨hsound, fun hnone => hids (hnone model List.mem_cons_self)⟩
          | ok next =>
              have hplain : ¬ RespellsFrom now (place + 1) next rest after :=
                fun hrespells => hrest ⟨next, after, hrun, hrespells⟩
              obtain ⟨hlast, hidsLast⟩ :=
                ih hsound (fun m hm => hmodels m
                  (List.mem_cons_of_mem _ hm)) hplain
              refine ⟨hlast, fun hnone => ?_⟩
              exact (hids (hnone model List.mem_cons_self)).trans
                (hidsLast fun m hm => hnone m (List.mem_cons_of_mem _ hm))

end Bulk

/-! ## The result -/

/-- In a batch whose identifiers, of whatever kind, have distinct texts, let an
update or a revision succeed. Each document that was there keeps its very
identifier, exactly unless it was found and respelled. If none was, then texts
are distinct still. A bulk write, failed or not, keeps texts distinct as long as
none of its operations respells an identifier, and without deletions among them
every identifier stays where it was. -/
theorem identifiers_kept_unless_respelled (hbatch : batch.Sound IdIndex.AnyText)
    (hc : c.WellFormed) (hfilter : filter.WellFormed) :
    (∀ outcome after, exec (Write.update now filter c many upsert) batch =
        (.ok outcome, after) →
      ∃ found, Write.places batch filter many = .ok found ∧
        Write.KeepsIds now c found batch.docs after.docs ∧
        (¬ Write.Respells now c filter many batch →
          after.Sound IdIndex.AnyText)) ∧
    (∀ revision after, exec (Write.revise now filter c upsert) batch =
        (.ok revision, after) →
      ∃ found, Write.places batch filter false = .ok found ∧
        Write.KeepsIds now c found batch.docs after.docs ∧
        (¬ Write.Respells now c filter false batch →
          after.Sound IdIndex.AnyText)) ∧
    ∀ models, (∀ model ∈ models, model.WellFormed) →
      ¬ Bulk.Respells now models batch →
      (exec (Bulk.run now models) batch).2.Sound IdIndex.AnyText ∧
        ((∀ model ∈ models, ¬ model.Deletes) →
          batch.identifiers <+:
            (exec (Bulk.run now models) batch).2.identifiers) := by
  have hidentified := hbatch.keyed.identified
  refine ⟨?_, ?_, ?_⟩
  · intro outcome after hrun
    have hrenews := Write.renews_update now filter c many upsert
    obtain ⟨found, hfound, hkeeps⟩ := hrenews.keepsIds hidentified hc hrun
    refine ⟨found, hfound, hkeeps, fun hplain => ?_⟩
    have hextends := hrenews.extends hbatch hc hfilter hplain
    rw [hrun] at hextends
    exact hextends.sound
  · intro revision after hrun
    have hrenews := Write.renews_revise now filter c upsert
    obtain ⟨found, hfound, hkeeps⟩ := hrenews.keepsIds hidentified hc hrun
    refine ⟨found, hfound, hkeeps, fun hplain => ?_⟩
    have hextends := hrenews.extends hbatch hc hfilter hplain
    rw [hrun] at hextends
    exact hextends.sound
  · intro models hmodels hplain
    exact Bulk.runFrom_spec hbatch hmodels hplain

/-- The double with the value one, whose text is not that of the integer. -/
def unitDouble : Value :=
  .number (.double ⟨false, 0x10000000000000, 1022, by decide, by decide,
    .inr (by decide)⟩)

/-- Two documents, identified by the integer and by the double. -/
def unitBatch : Batch :=
  .ofDocs [.object [(idKey, .number (.int 1))], .object [(idKey, unitDouble)]]
    ⟨fun _ => "", 0⟩

def unitFilter : Value := .object [(idKey, .number (.int 1))]

def unitChange : Change :=
  .update
    (.object [("$set", .object [(idKey, unitDouble), ("n", .number (.int 2))])])

theorem sound_unitBatch : unitBatch.Sound IdIndex.AnyText := by
  refine Batch.Sound.ofDocs ⟨?_, ?_⟩ _
  · have hidentified : ∀ n : Number,
        (Value.object [(idKey, .number n)]).Identified := by
      intro n
      refine ⟨⟨?_, rfl⟩, .number n, rfl, rfl⟩
      simp [Value.WellFormed, Value.FieldsWellFormed, Fields.keys]
    intro doc hdoc
    rcases List.mem_pair.mp hdoc with rfl | rfl
    · exact hidentified _
    · exact hidentified _
  · rw [List.pairwise_pair]
    intro text _ hint hdouble
    have htexts : (Value.object [(idKey, .number (.int 1))]).idText? ≠
        (Value.object [(idKey, unitDouble)]).idText? := by
      decide +kernel
    exact htexts (hint.trans hdouble.symm)

/-- The integer is found and becomes the double: two documents have it then. -/
theorem identifiers_kept_unless_respelled_unitBatch :
    unitBatch.Sound IdIndex.AnyText ∧ unitChange.WellFormed ∧
      unitFilter.WellFormed ∧
      ∃ outcome after,
        exec (Write.update ⟨0, 0, by decide⟩ unitFilter unitChange false false)
          unitBatch =
          (.ok outcome, after) ∧
        ∃ first second, after.docs[0]? = some first ∧
          after.docs[1]? = some second ∧
          first.field? idKey ≠ some (.number (.int 1)) ∧
          second.field? idKey = some unitDouble := by
  have hc : unitChange.WellFormed := by
    simp [unitChange, unitDouble, Change.WellFormed, Value.WellFormed,
      Value.FieldsWellFormed, Fields.keys, idKey]
  have hfilter : unitFilter.WellFormed := by
    simp [unitFilter, Value.WellFormed, Value.FieldsWellFormed, Fields.keys]
  have hok :
      (exec (Write.update ⟨0, 0, by decide⟩ unitFilter unitChange false false)
        unitBatch).1 =
      .ok ⟨1, 1, none⟩ := by
    decide +kernel
  have hplaces : Write.places unitBatch unitFilter false = .ok [0] := by
    decide +kernel
  have hcontent : unitChange.content ⟨0, 0, by decide⟩
      (.object [(idKey, .number (.int 1))]) =
      .ok (.object [(idKey, unitDouble), ("n", .number (.int 2))]) := by
    decide +kernel
  have hrespells :
      unitChange.Respells ⟨0, 0, by decide⟩
        (.object [(idKey, .number (.int 1))]) :=
    ⟨.number (.int 1), _, unitDouble, rfl, hcontent, rfl, by decide +kernel,
      by decide +kernel,
      by decide +kernel⟩
  cases hrun : exec
    (Write.update ⟨0, 0, by decide⟩ unitFilter unitChange false false)
      unitBatch with
  | mk outcome after =>
      rw [hrun] at hok
      cases hok
      obtain ⟨hupdate, -⟩ :=
        identifiers_kept_unless_respelled sound_unitBatch hc hfilter
      obtain ⟨found, hfound, hkeeps, -⟩ := hupdate _ after hrun
      rw [hplaces, Except.ok.injEq] at hfound
      subst hfound
      obtain ⟨first, hfirst, hfirstId⟩ := hkeeps 0 _ rfl
      obtain ⟨second, hsecond, hsecondId⟩ := hkeeps 1 _ rfl
      refine ⟨sound_unitBatch, hc, hfilter, _, after, rfl, first, second,
        hfirst, hsecond, ?_, ?_⟩
      · intro hkept
        exact hfirstId.mp hkept ⟨List.mem_singleton.mpr rfl, hrespells⟩
      · exact hsecondId.mpr (by simp)

end DocumentStore
