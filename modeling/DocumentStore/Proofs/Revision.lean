import DocumentStore.Proofs.Atomicity
import DocumentStore.Proofs.Collection.Commit
import DocumentStore.Proofs.Write.Places
import DocumentStore.Proofs.Write.Renew

/-!
# Three ways to update a document

One document can be updated by itself, as the only operation of a bulk write, or
by an operation that gives it back. The last one looks for the document and
changes it by means of its own, and yet it does what an update does: the two go
`Together`. They take the same document, fail with the same error, leave the
same batch, and have something to write in the same cases. What they do to the
documents is `Revised`.

In a collection the three therefore end alike. They differ in whether they write
the file if nothing has changed or if they fail, and then what they write is
what was there.
-/

namespace DocumentStore

variable {now : Instant} {c : Change} {filter doc : Value} {docs : List Value}
  {upsert : Bool}

namespace Write

/-- What becomes of documents when one of them is updated, and that one before
and after: the first one that the clause acts on is changed in its place, or if
there is none one is added at the end, if that is wanted. The version that is
given is the same as the one that is stored. -/
inductive Revised (now : Instant) (c : Change) (clause : Value) (upsert : Bool)
    (docs : List Value) : Option Value → Option Value → List Value → Prop
  | changed {place : Nat} {doc given : Value}
      (hfirst : docs.findIdx? (Filter.acts clause) = some place)
      (hdoc : docs[place]? = some doc)
      (happly : c.apply now doc = .ok given)
      (hsame : given.same (c.version now doc) = true) :
      Revised now c clause upsert docs (some doc) (some given)
        (docs.modify place (c.version now))
  | added (made : Value) (hnone : docs.findIdx? (Filter.acts clause) = none)
      (hupsert : upsert = true) :
      Revised now c clause upsert docs none (some made) (docs ++ [made])
  | absent (hnone : docs.findIdx? (Filter.acts clause) = none)
      (hupsert : upsert = false) :
      Revised now c clause upsert docs none none docs

/-- An update and a revision that go together: they fail alike and have changed
nothing, or they leave the same batch and have something to write, or not,
alike. -/
inductive Together (now : Instant) (filter : Value) (c : Change) (upsert : Bool)
    (docs : List Value) :
    Result Outcome × Batch → Result Revision × Batch → Prop
  | fail (e : Error) (left : Batch) (hleft : left.docs = docs) :
      Together now filter c upsert docs (.error e, left) (.error e, left)
  | succeed (outcome : Outcome) (revision : Revision) (left : Batch)
      (clause : Value)
      (hclause : Filter.ofValue filter = .ok clause)
      (hwritten : revision.written = outcome.changed)
      (hkept : outcome.changed = false → left.docs = docs)
      (hrevised : Revised now c clause upsert docs revision.before
        revision.after left.docs) :
      Together now filter c upsert docs (.ok outcome, left) (.ok revision, left)

theorem together_at {clause : Value} {place : Nat} {ids : IdSupply}
    (hclause : Filter.ofValue filter = .ok clause)
    (hfound : places (.ofDocs docs ids) filter false = .ok [place])
    (hfirst : docs.findIdx? (Filter.acts clause) = some place)
    (hc : c.WellFormed) (hdocs : ∀ doc ∈ docs, doc.WellFormed) (upsert : Bool) :
    Together now filter c upsert docs
      (exec (update now filter c false upsert) (.ofDocs docs ids))
      (exec (revise now filter c upsert) (.ofDocs docs ids)) := by
  obtain ⟨hlt, -, -⟩ := List.findIdx?_eq_some_iff_getElem.mp hfirst
  have hdoc : docs[place]? = some docs[place] := List.getElem?_eq_getElem hlt
  have hchosen :
      ([place].head?.bind fun place => (docs[place]?).map (place, ·)) =
      some (place, docs[place]) := by
    simp [hdoc]
  rw [exec_update, exec_revise, hfound]
  dsimp only
  rw [change_cons]
  dsimp only [Batch.ofDocs]
  rw [hchosen, hdoc]
  dsimp only
  cases happly : c.apply now docs[place] with
  | error e => exact .fail e _ rfl
  | ok given =>
      have hsame :=
        Change.same_version hc (hdocs _ (List.getElem_mem hlt)) happly
      have hrevised :
          Revised now c clause upsert docs (some docs[place]) (some given)
          (docs.modify place (c.version now)) :=
        .changed hfirst hdoc happly hsame
      rw [modify_version hdoc happly] at hrevised
      dsimp only
      cases hunchanged : given.same docs[place] with
      | true =>
          rw [hunchanged] at hrevised
          exact .succeed ⟨1, 0, none⟩ ⟨some docs[place], some given, false⟩
            (.ofDocs docs ids) clause
            hclause rfl (fun _ => rfl) hrevised
      | false =>
          rw [hunchanged] at hrevised
          exact .succeed ⟨1, 1, none⟩ ⟨some docs[place], some given, true⟩
            ⟨docs.set place given, IdIndex.build docs, ids⟩ clause hclause rfl
            (fun h => absurd h.symm Bool.false_ne_true) hrevised

theorem together_nowhere {clause : Value} {ids : IdSupply}
    (hclause : Filter.ofValue filter = .ok clause)
    (hfound : places (.ofDocs docs ids) filter false = .ok [])
    (hfirst : docs.findIdx? (Filter.acts clause) = none) (upsert : Bool) :
    Together now filter c upsert docs
      (exec (update now filter c false upsert) (.ofDocs docs ids))
      (exec (revise now filter c upsert) (.ofDocs docs ids)) := by
  rw [exec_update, exec_revise, hfound]
  cases upsert with
  | false =>
      exact .succeed _ _ _ clause hclause rfl (fun _ => rfl)
        (.absent hfirst rfl)
  | true =>
      show Together now filter c true docs
        (exec (bringAbout now filter c >>= fun id => pure ⟨0, 0, some id⟩)
          (.ofDocs docs ids))
        (exec (bringAbout now filter c >>= fun id => do
          let batch ← get
          return ⟨none, (batch.index.find? id).bind (batch.docs[·]?), true⟩)
          (.ofDocs docs ids))
      rw [exec_bind, exec_bind]
      rcases bringAbout_cases now filter c (.ofDocs docs ids) with
        ⟨e, rest, hrun⟩ | ⟨id, made, rest, hrun⟩
      · rw [hrun]
        exact .fail e _ rfl
      · rw [hrun]
        -- The revision looks the new document up, and the index leads to the
        -- last place.
        have hlast : (((IdIndex.build docs).enter id docs.length).find? id).bind
            ((docs ++ [made])[·]?) = some made := by
          rw [IdIndex.enter, IdIndex.find?, Fields.get?_insert_self]
          simp
        refine .succeed ⟨0, 0, some id⟩ _ _ clause hclause rfl
          (fun h => absurd h.symm Bool.false_ne_true) ?_
        rw [Batch.ofDocs]
        dsimp only
        rw [hlast]
        exact .added made hfirst rfl

theorem together_update_revise (now : Instant) (filter : Value) (upsert : Bool)
    (hc : c.WellFormed) (hdocs : ∀ doc ∈ docs, doc.WellFormed)
    (ids : IdSupply) :
    Together now filter c upsert docs
      (exec (update now filter c false upsert) (.ofDocs docs ids))
      (exec (revise now filter c upsert) (.ofDocs docs ids)) := by
  cases hfound : places (.ofDocs docs ids) filter false with
  | error e =>
      rw [exec_update, exec_revise, hfound]
      exact .fail e _ rfl
  | ok found =>
      obtain ⟨clause, hclause, hplace⟩ := firstPlace_eq hfound
      cases hfirst : docs.findIdx? (Filter.acts clause) with
      | none =>
          rw [hplace, hfirst] at hfound
          exact together_nowhere hclause hfound hfirst upsert
      | some place =>
          rw [hplace, hfirst] at hfound
          exact together_at hclause hfound hfirst hc hdocs upsert

end Write

theorem Bulk.exec_run_single (now : Instant) (model : WriteModel)
    (batch : Batch) :
    exec (run now [model]) batch = exec (step now 0 {} model) batch :=
  congrArg (fun w => exec w batch) (bind_pure (step now 0 {} model))

namespace Collection

open Write CollectionFile

variable {collection : Collection} {world : World} {spec : Value}

/-- The operation ends with this outcome, its result aside, and the file then
lists these documents. -/
structure EndsWith (file : CollectionFile) (world : World) (m : Store α)
    (outcome : Result Unit) (left : List Value) : Prop where
  outcome : (exec m world).1.map (fun _ => ()) = outcome
  lists : file.Lists (exec m world).2.folder left

theorem EndsWith.of_exec {file : CollectionFile} {m : Store α}
    {run : Result α × World} {outcome : Result Unit} {left : List Value}
    (h : exec m world = run) (houtcome : run.1.map (fun _ => ()) = outcome)
    (hlists : file.Lists run.2.folder left) :
    EndsWith file world m outcome left := by
  subst h
  exact ⟨houtcome, hlists⟩

/-- A bulk write of one update ends as the run of the update does. -/
theorem endsWith_bulkWrite
    (hread : collection.file.read world.folder = .ok docs)
    (hwrite : collection.file.Writable world.folder) {result : Result Outcome}
    {left : Batch}
    (hrun : exec (Write.update now filter (.update spec) false upsert)
      (.ofDocs docs world.ids) =
      (result, left)) :
    EndsWith collection.file world
      (collection.bulkWrite now [.updateOne filter spec upsert])
      (result.map fun _ => ()) left.docs := by
  have hbulk := exec_bulkWrite now [.updateOne filter spec upsert] hread hwrite
  rw [Bulk.exec_run_single, Bulk.step, exec_bind, hrun] at hbulk
  have hlists := lists_written hwrite left.docs
  cases result with
  | error e => exact .of_exec hbulk rfl hlists
  | ok outcome => exact .of_exec hbulk rfl hlists

/-- The documents must be what they were wherever the file is not written. -/
theorem Commits.endsWith {m : Store β} {w : Write α} {write : α → Bool}
    {give : α → β} (h : Commits collection m w write give)
    (hread : collection.file.read world.folder = .ok docs)
    (hwrite : collection.file.Writable world.folder) {result : Result α}
    {left : Batch} (hrun : exec w (.ofDocs docs world.ids) = (result, left))
    (hkept : ∀ a, result = .ok a → write a = false → left.docs = docs)
    (hfailed : ∀ e, result = .error e → left.docs = docs) :
    EndsWith collection.file world m (result.map fun _ => ()) left.docs := by
  have hm := h world docs hread hwrite
  rw [hrun] at hm
  cases result with
  | error e =>
      exact .of_exec hm rfl (lists_settled hread hwrite fun _ => hfailed e rfl)
  | ok a => exact .of_exec hm rfl (lists_settled hread hwrite (hkept a rfl))

/-- The three ways to update a document end alike: they fail with the same error
and the documents stay, or they succeed and leave the same documents. The one
that gives the document back then gives it as it was or as it is, and none where
there is none. -/
theorem updates_agree (hread : collection.file.read world.folder = .ok docs)
    (hwrite : collection.file.Writable world.folder) (hspec : spec.WellFormed)
    (now : Instant) (filter : Value) (upsert : Bool) :
    ∃ outcome left,
      EndsWith collection.file world
        (collection.updateOne now filter spec ⟨upsert⟩) outcome left ∧
      EndsWith collection.file world
        (collection.bulkWrite now [.updateOne filter spec upsert])
        outcome left ∧
      (∀ returned, EndsWith collection.file world
        (collection.findOneAndUpdate now filter spec ⟨upsert, returned⟩)
          outcome left) ∧
      match outcome with
      | .error _ => left = docs
      | .ok _ => ∃ clause before after, Filter.ofValue filter = .ok clause ∧
          Revised now (.update spec) clause upsert docs before after left ∧
          (exec (collection.findOneAndUpdate now filter spec
              ⟨upsert, .before⟩) world).1 =
            .ok (before.map collection.bind) ∧
          (exec (collection.findOneAndUpdate now filter spec
              ⟨upsert, .after⟩) world).1 =
            .ok (after.map collection.bind) := by
  have hc : (Change.update spec).WellFormed := hspec
  have hdocs : ∀ doc ∈ docs, doc.WellFormed :=
    fun doc hdoc => (storable_of_read hread doc hdoc).1.wellFormed
  have hone := commits_update collection now filter spec false ⟨upsert⟩
  have hfind := fun returned =>
    commits_findOneAndUpdate collection now filter spec ⟨upsert, returned⟩
  have htogether := together_update_revise now filter upsert hc hdocs world.ids
  cases hupdate : exec (Write.update now filter (.update spec) false upsert)
    (.ofDocs docs world.ids) with
  | mk result left =>
      cases hrevise : exec (Write.revise now filter (.update spec) upsert)
        (.ofDocs docs world.ids) with
      | mk result' left' =>
          rw [hupdate, hrevise] at htogether
          have hbulk := endsWith_bulkWrite hread hwrite hupdate
          -- Both runs leave one batch, so `left` is what all three operations
          -- write.
          cases htogether with
          | fail e left hleft =>
              subst hleft
              refine ⟨.error e, left.docs, ?_, hbulk, fun returned => ?_, rfl⟩
              · exact hone.endsWith hread hwrite hupdate nofun fun _ _ => rfl
              · exact (hfind returned).endsWith hread hwrite hrevise nofun
                  fun _ _ => rfl
          | succeed outcome revision left clause hclause hwritten hkept hrevised =>
              have hgiven : ∀ returned,
                  (exec (collection.findOneAndUpdate now filter spec
                      ⟨upsert, returned⟩) world).1 =
                    .ok (collection.givenBack returned revision) := by
                intro returned
                rw [hfind returned world docs hread hwrite, hrevise]
              refine ⟨.ok (), left.docs, ?_, hbulk, fun returned => ?_, clause,
                revision.before,
                revision.after, hclause, hrevised, hgiven .before,
                hgiven .after⟩
              · refine hone.endsWith hread hwrite hupdate
                  (fun a ha hwrite => ?_) nofun
                cases ha
                exact hkept hwrite
              · refine (hfind returned).endsWith hread hwrite hrevise
                  (fun a ha hwrite => ?_) nofun
                cases ha
                rw [hwritten] at hwrite
                exact hkept hwrite

def addNumber : Value := .object [("n", .ofInt 1)]

/-- The document that is stored gets the field. -/
theorem updates_agree_oneStored :
    ∃ left, EndsWith Session.people.file oneStored
        (Session.people.updateOne Session.epoch (bare "a") addNumber ⟨false⟩)
          (.ok ()) left ∧
      EndsWith Session.people.file oneStored
        (Session.people.bulkWrite Session.epoch
          [.updateOne (bare "a") addNumber false]) (.ok ()) left ∧
      (∀ returned, EndsWith Session.people.file oneStored
        (Session.people.findOneAndUpdate Session.epoch (bare "a") addNumber
            ⟨false, returned⟩)
          (.ok ()) left) ∧
      (∃ clause before after, Filter.ofValue (bare "a") = .ok clause ∧
        Revised Session.epoch (.update addNumber) clause false
          [bare "a"] before after left ∧
        before = some (bare "a") ∧
        after = some (.object [(idKey, .string "a"), ("n", .ofInt 1)])) := by
  have hread : Session.people.file.read oneStored.folder = .ok [bare "a"] := by
    decide +kernel
  have hwrite : Session.people.file.Writable oneStored.folder :=
    writable_of_read hread (.inr (by decide +kernel))
  have hbefore :
      (exec (Session.people.findOneAndUpdate Session.epoch (bare "a") addNumber
      ⟨false, .before⟩) oneStored).1 =
      .ok (some (Session.people.bind (bare "a"))) := by
    decide +kernel
  have hafter :
      (exec (Session.people.findOneAndUpdate Session.epoch (bare "a") addNumber
      ⟨false, .after⟩) oneStored).1 =
        .ok (some (Session.people.bind
          (.object [(idKey, .string "a"), ("n", .ofInt 1)]))) := by
    decide +kernel
  have hspec : addNumber.WellFormed :=
    Value.wellFormed_object_iff.mpr ⟨by simp [Fields.keys],
      by simp [Value.wellFormed_ofInt]⟩
  obtain ⟨world, hworld⟩ : ∃ world, oneStored = world := ⟨_, rfl⟩
  rw [hworld] at hread hwrite hbefore hafter ⊢
  obtain ⟨outcome, left, hone, hbulk, hfind, hok⟩ :=
    updates_agree hread hwrite hspec Session.epoch (bare "a") false
  cases outcome with
  | error e =>
      have hfails := (hfind .before).outcome
      rw [hbefore] at hfails
      cases hfails
  | ok _ =>
      obtain ⟨clause, before, after, hclause, hrevised, hgivenBefore,
        hgivenAfter⟩ := hok
      have hvalue : ∀ (v : Value) (found : Option Value),
          (.ok (some (Session.people.bind v)) : Result (Option Document)) =
            .ok (found.map Session.people.bind) → found = some v := by
        intro v found h
        cases found with
        | none => cases h
        | some w =>
            cases h
            rfl
      exact ⟨left, hone, hbulk, hfind, clause, before, after, hclause, hrevised,
        hvalue _ _ (hbefore.symm.trans hgivenBefore),
        hvalue _ _ (hafter.symm.trans hgivenAfter)⟩

end Collection

end DocumentStore
