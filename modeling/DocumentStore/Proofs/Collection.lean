import DocumentStore.Collection
import DocumentStore.Proofs.Find
import DocumentStore.Proofs.Path.Failure
import DocumentStore.Proofs.Storage.CollectionFile
import DocumentStore.Proofs.Write.Sound

/-!
# Operations on a collection keep its file in order

Every operation on a collection reads the file first and saves last, if at all.
What it saves are documents that a write led to from those it read, so they are
well keyed if those were. `Keeps` says this of an operation whatever becomes of
it: it fails or not, it saves or not. There is one lemma for each way in which
operations are put together, and with them one for each operation.

An operation that succeeds leaves a file that can be asked for, and the
documents that it gives are fit to be held.
-/

namespace DocumentStore

open Relation

variable {file : CollectionFile} {P : Folder → Prop} {Q : α → Prop}
  {docs : List Value}

/-- From a file that holds well-keyed documents, in a directory of which `P`
holds, an operation leads to a file that holds well-keyed documents. If it
succeeds the file can be asked for, and its result is one of those of which `Q`
holds. -/
def Keeps (file : CollectionFile) (P : Folder → Prop) (m : Store α)
    (Q : α → Prop) : Prop :=
  ∀ world docs, P world.folder → file.Holds world.folder docs → WellKeyed docs →
    (∃ after, file.Holds (exec m world).2.folder after ∧ WellKeyed after) ∧
      ∀ a, (exec m world).1 = .ok a →
        file.Reachable (exec m world).2.folder ∧ Q a

/-- No condition on the directory. -/
def Anywhere (_ : Folder) : Prop := True

/-- An edit runs the write on the documents that are read, and changes nothing
but the supply of identifiers. -/
theorem Collection.exec_edit (collection : Collection) (w : Write α)
    (world : World) :
    exec (collection.edit w) world =
      match collection.file.read world.folder with
      | .error e => (.error e, world)
      | .ok docs =>
          (.ok (exec w (.ofDocs docs world.ids)),
            { world with ids := (exec w (.ofDocs docs world.ids)).2.ids }) := by
  rw [edit, exec_bind, CollectionFile.exec_load]
  cases collection.file.read world.folder with
  | error e => rfl
  | ok docs => rfl

namespace Keeps

/-! ## Putting operations together -/

theorem bind {m : Store α} {k : α → Store β} {R : β → Prop}
    (hm : Keeps file P m Q)
    (hk : ∀ a, Q a → Keeps file file.Reachable (k a) R) :
    Keeps file P (m >>= k) R := by
  intro world docs hP hholds hkeyed
  obtain ⟨⟨after, hafter, hafterKeyed⟩, hok⟩ := hm world docs hP hholds hkeyed
  rw [exec_bind]
  cases hrun : exec m world with
  | mk outcome next =>
      rw [hrun] at hafter hok
      cases outcome with
      | ok a =>
          exact hk a (hok a rfl).2 next after (hok a rfl).1 hafter hafterKeyed
      | error e => exact ⟨⟨after, hafter, hafterKeyed⟩, fun b hb => nomatch hb⟩

theorem pure {a : α} (h : Q a) : Keeps file file.Reachable (Pure.pure a) Q := by
  intro world docs hP hholds hkeyed
  refine ⟨⟨docs, hholds, hkeyed⟩, ?_⟩
  intro b hb
  cases hb
  exact ⟨hP, h⟩

theorem throw (e : Error) : Keeps file P (MonadExcept.throw e : Store α) Q := by
  intro world docs hP hholds hkeyed
  exact ⟨⟨docs, hholds, hkeyed⟩, fun a ha => nomatch ha⟩

theorem bind_ofResult {r : Result α} {k : α → Store β} {Q : β → Prop}
    (h : ∀ a, r = .ok a → Keeps file P (k a) Q) :
    Keeps file P (Store.ofResult r >>= k) Q := by
  intro world docs hP hholds hkeyed
  rw [exec_bind, Store.ofResult, exec_mk]
  cases hr : r with
  | ok a => exact h a hr world docs hP hholds hkeyed
  | error e =>
      refine ⟨⟨docs, hholds, hkeyed⟩, ?_⟩
      intro b hb
      cases hb

theorem ofResult {r : Result α} (h : ∀ a, r = .ok a → Q a) :
    Keeps file file.Reachable (Store.ofResult r) Q := by
  intro world docs hP hholds hkeyed
  exact ⟨⟨docs, hholds, hkeyed⟩, fun a ha => ⟨hP, h a ha⟩⟩

theorem bind_save {saved : List Value} {k : Unit → Store β} {Q : β → Prop}
    (hsaved : WellKeyed saved) (h : Keeps file file.Reachable (k ()) Q) :
    Keeps file P (file.save saved >>= k) Q := by
  intro world docs hP hholds hkeyed
  rw [exec_bind]
  rcases file.save_cases saved world with
    ⟨folder, hrun, hfind⟩ | ⟨e, hrun, hkeep⟩
  · rw [hrun]
    exact h { world with folder } saved ⟨_, hfind⟩ (.inl hfind) hsaved
  · rw [hrun]
    exact ⟨⟨docs, hkeep docs hholds, hkeyed⟩, fun a ha => nomatch ha⟩

theorem save {saved : List Value} (hsaved : WellKeyed saved) :
    Keeps file P (file.save saved) fun _ => True := by
  have hpure : Keeps file file.Reachable (Pure.pure () : Store Unit) fun _ =>
      True :=
    Keeps.pure trivial
  have h : Keeps file P (file.save saved >>= Pure.pure) fun _ => True :=
    bind_save hsaved hpure
  rwa [bind_pure] at h

theorem bind_load {k : List Value → Store β} {Q : β → Prop}
    (h : ∀ docs, WellKeyed docs → Keeps file file.Reachable (k docs) Q) :
    Keeps file P (file.load >>= k) Q := by
  intro world docs hP hholds hkeyed
  rw [exec_bind, CollectionFile.exec_load]
  cases hread : file.read world.folder with
  | error e => exact ⟨⟨docs, hholds, hkeyed⟩, fun a ha => nomatch ha⟩
  | ok found =>
      have hfound : found = docs :=
        hholds.eq_of_read hkeyed.storable hread
      subst hfound
      exact h found hkeyed world found
        (CollectionFile.reachable_of_read hread) hholds hkeyed

/-- What follows an edit sees a sound batch, which the write led to. -/
theorem bind_edit {collection : Collection} {w : Write α}
    (hw : Leads Batch.Steps w) {k : Result α × Batch → Store β} {Q : β → Prop}
    (h : ∀ batch outcome after, exec w batch = (outcome, after) →
      batch.Sound IdIndex.IsStringText → after.Sound IdIndex.IsStringText →
      Keeps collection.file collection.file.Reachable (k (outcome, after)) Q) :
    Keeps collection.file P (collection.edit w >>= k) Q := by
  intro world docs hP hholds hkeyed
  rw [exec_bind, Collection.exec_edit]
  cases hread : collection.file.read world.folder with
  | error e => exact ⟨⟨docs, hholds, hkeyed⟩, fun a ha => nomatch ha⟩
  | ok found =>
      have hfound : found = docs :=
        hholds.eq_of_read hkeyed.storable hread
      subst hfound
      have hbatch := Batch.Sound.ofDocs hkeyed world.ids
      exact h _ _ _ rfl hbatch (hbatch.steps (hw _))
        { world with ids := (exec w (.ofDocs found world.ids)).2.ids } found
        (CollectionFile.reachable_of_read hread) hholds hkeyed

end Keeps

namespace Collection

variable {collection : Collection} {now : Instant} {doc filter spec : Value}

/-- What an operation gives to hold. -/
def Gives (collection : Collection) (doc : Document) : Prop :=
  doc.file = collection.file ∧ doc.value.Held

theorem gives_bind (h : doc.Identified) :
    collection.Gives (collection.bind doc) := ⟨rfl, h.held⟩

/-! ## Writing -/

theorem keeps_insertOne (hdoc : doc.WellFormed) :
    Keeps collection.file Anywhere (collection.insertOne doc) fun _ =>
      True := by
  refine Keeps.bind_edit (Write.leads_insert hdoc) ?_
  intro batch outcome after hrun hbatch hafter
  refine Keeps.bind_ofResult ?_
  intro id hid
  exact Keeps.bind_save hafter.keyed (Keeps.pure trivial)

theorem keeps_create (hdoc : doc.WellFormed) :
    Keeps collection.file Anywhere
      (collection.create doc) collection.Gives := by
  refine Keeps.bind_edit (Write.leads_insert hdoc) ?_
  intro batch outcome after hrun hbatch hafter
  refine Keeps.bind_ofResult ?_
  intro id houtcome
  refine Keeps.bind_save hafter.keyed (Keeps.pure ?_)
  rcases Write.insert_cases doc batch with
    ⟨e, ids, hcase⟩ | ⟨id, made, ids, hcase, hnamed, -⟩
  · rw [hrun, houtcome] at hcase
    cases hcase
  · rw [hrun] at hcase
    cases hcase
    simp only [List.getLast?_append, List.getLast?_singleton, Option.some_or,
      Option.getD_some]
    exact gives_bind ⟨hnamed.storable hdoc, id, hnamed.field, hnamed.proper⟩

theorem keeps_insertMany {docs : List Value}
    (hdocs : ∀ doc ∈ docs, doc.WellFormed) :
    Keeps collection.file Anywhere (collection.insertMany docs) fun _ =>
      True := by
  refine Keeps.bind_edit (Write.leads_insertAll docs hdocs) ?_
  intro batch outcome after hrun hbatch hafter
  refine Keeps.bind_ofResult ?_
  intro ids hids
  exact Keeps.bind_save hafter.keyed (Keeps.pure trivial)

theorem keeps_update (hfilter : filter.WellFormed) (hspec : spec.WellFormed)
    (many : Bool) (options : UpdateOptions) :
    Keeps collection.file Anywhere
      (collection.update now filter spec many options)
      fun _ => True := by
  have hc : (Change.update spec).WellFormed := hspec
  refine Keeps.bind_edit (Write.leads_update hc hfilter many options.upsert) ?_
  intro batch outcome after hrun hbatch hafter
  refine Keeps.bind_ofResult ?_
  intro counts hcounts
  split
  · exact Keeps.bind_save hafter.keyed (Keeps.pure trivial)
  · exact Keeps.pure trivial

theorem keeps_delete (many : Bool) :
    Keeps collection.file Anywhere (collection.delete filter many) fun _ =>
      True := by
  refine Keeps.bind_edit (Write.leads_delete filter many) ?_
  intro batch outcome after hrun hbatch hafter
  refine Keeps.bind_ofResult ?_
  intro taken htaken
  split
  · exact Keeps.bind_save hafter.keyed (Keeps.pure trivial)
  · exact Keeps.pure trivial

theorem keeps_bulkWrite {models : List WriteModel}
    (hmodels : ∀ model ∈ models, model.WellFormed) :
    Keeps collection.file Anywhere (collection.bulkWrite now models) fun _ =>
      True := by
  refine Keeps.bind_edit (Bulk.leads_run models hmodels now) ?_
  intro batch outcome after hrun hbatch hafter
  exact Keeps.bind_save hafter.keyed
    (Keeps.ofResult fun counts hcounts => trivial)

theorem keeps_findOneAndUpdate (hfilter : filter.WellFormed)
    (hspec : spec.WellFormed) (options : FindOneAndUpdateOptions) :
    Keeps collection.file Anywhere
      (collection.findOneAndUpdate now filter spec options)
      fun found => ∀ doc, found = some doc → collection.Gives doc := by
  have hc : (Change.update spec).WellFormed := hspec
  refine Keeps.bind_edit (Write.leads_revise hc hfilter options.upsert) ?_
  intro batch outcome after hrun hbatch hafter
  refine Keeps.bind_ofResult ?_
  intro revision hrevision
  rw [hrevision] at hrun
  have hgives : ∀ result : Option Value,
      (∀ v, result = some v → revision.before = some v ∨
        revision.after = some v) →
      Keeps collection.file collection.file.Reachable
        (pure (result.map collection.bind))
        fun found => ∀ doc, found = some doc → collection.Gives doc := by
    intro result hresult
    refine Keeps.pure fun doc hdoc => ?_
    obtain ⟨v, hv, rfl⟩ := Option.map_eq_some_iff.mp hdoc
    exact gives_bind
      (Write.identified_revise hc hfilter hbatch hrun (hresult v hv))
  split
  · have hbefore := hgives revision.before fun v hv => .inl hv
    split
    · exact Keeps.bind_save hafter.keyed hbefore
    · exact hbefore
  · have hlater := hgives revision.after fun v hv => .inr hv
    split
    · exact Keeps.bind_save hafter.keyed hlater
    · exact hlater

/-! ## Reading -/

theorem firstMatch_mem {clause v : Value} {docs : List Value}
    (h : firstMatch clause docs = .ok (some v)) : v ∈ docs := by
  induction docs with
  | nil => cases h
  | cons doc rest ih =>
      obtain ⟨matched, -, h⟩ := bind_eq_ok.mp h
      cases matched with
      | true =>
          cases h
          exact List.mem_cons_self
      | false => exact List.mem_cons_of_mem _ (ih h)

theorem keeps_findOne :
    Keeps collection.file Anywhere (collection.findOne filter)
      fun found => ∀ doc, found = some doc → collection.Gives doc := by
  refine Keeps.bind_ofResult fun clause hclause =>
    Keeps.bind_load fun docs hdocs => ?_
  refine Keeps.bind_ofResult fun found hfound => Keeps.pure fun doc hdoc => ?_
  obtain ⟨v, rfl, rfl⟩ := Option.map_eq_some_iff.mp hdoc
  exact gives_bind (hdocs.identified v (firstMatch_mem hfound))

theorem keeps_findById {id : Value} :
    Keeps collection.file Anywhere (collection.findById id)
      fun found => ∀ doc, found = some doc → collection.Gives doc := by
  refine Keeps.bind_load fun docs hdocs => Keeps.pure fun doc hdoc => ?_
  obtain ⟨v, hv, rfl⟩ := Option.map_eq_some_iff.mp hdoc
  obtain ⟨place, -, hget⟩ := Option.bind_eq_some_iff.mp hv
  exact gives_bind (hdocs.identified v (List.mem_of_getElem? hget))

theorem keeps_search {find : Find} (hfile : find.file = collection.file) :
    Keeps collection.file Anywhere find.run fun found =>
      ∀ v ∈ found, v.Held := by
  rw [Find.run, Find.found]
  split
  · intro world docs hP hholds hkeyed
    exact ⟨⟨docs, hholds, hkeyed⟩, fun a ha => nomatch ha⟩
  · rw [hfile, bind_assoc]
    refine Keeps.bind_load fun docs hdocs => ?_
    refine Keeps.bind_ofResult fun found hfound =>
      Keeps.ofResult fun results hresults => ?_
    have hheld : ∀ doc ∈ found, doc.Held := fun doc hdoc =>
      (hdocs.identified doc ((Filter.select_sublist hfound).subset hdoc)).held
    exact Find.Options.held_apply hheld hresults

end Collection

/-! ## Documents at hand -/

namespace Document

theorem file_set (doc : Document) (path : String) (new : Value) :
    (doc.set path new).1.file = doc.file := by
  rw [set]
  split
  · rfl
  · split
    · rfl
    · rfl

/-- An assignment to a document at hand, whether it succeeds or not, leaves its
identifier alone. -/
theorem id?_set (doc : Document) (path : String) (new : Value) :
    (doc.set path new).1.id? = doc.id? := by
  rw [set]
  split
  · rfl
  · next p hp =>
      split
      · rfl
      · next hid =>
          obtain ⟨segment, rest, hsegments⟩ :=
            List.exists_cons_of_ne_nil p.nonempty
          rw [hsegments, List.head?_cons, Option.some.injEq] at hid
          rw [hsegments]
          exact Path.field?_assign (Path.text_ne_idKey hid) rest new doc.value

theorem held_set {doc : Document} {path : String} {new : Value}
    (hdoc : doc.value.Held) (hnew : new.WellFormed) :
    (doc.set path new).1.value.Held := by
  have hstorable : (doc.set path new).1.value.Storable := by
    rw [set]
    split
    · exact hdoc.toStorable
    · next p hp =>
        split
        · exact hdoc.toStorable
        · exact ⟨Path.wellFormed_assign p.segments hnew hdoc.wellFormed,
            Path.isObject_assign p.segments p.nonempty hdoc.isObject⟩
  refine ⟨hstorable, fun id hfield => hdoc.idProper id ?_⟩
  rw [← hfield]
  exact (id?_set doc path new).symm

/-- A document that is written back takes the place of the one with its
identifier, or goes last; either way no string becomes the identifier of two. -/
theorem keeps_save {doc : Document} (hdoc : doc.value.Held) :
    Keeps doc.file Anywhere doc.save fun _ => True := by
  rw [save]
  cases hid : doc.id? with
  | none => exact Keeps.throw _
  | some id =>
      have hidentified : doc.value.Identified :=
        ⟨hdoc.toStorable, id, hid, hdoc.idProper id hid⟩
      refine Keeps.bind_load fun docs hdocs => ?_
      have htext := Value.idText?_of_field? hid
      have hexact := IdIndex.exact_build IdIndex.AnyText docs
      split
      · next place hplace =>
          obtain ⟨old, hold, holdText⟩ := hexact.of_find?_eq_some trivial hplace
          refine Keeps.save (hdocs.set hold hidentified fun text hT => ?_)
          rw [htext, holdText]
      · next hplace =>
          refine Keeps.save
            (hdocs.append hidentified fun d hd text hT htext' hv => ?_)
          exact hexact.of_find?_eq_none trivial hplace hd
            (htext'.trans (hv.symm.trans htext))

end Document

end DocumentStore
