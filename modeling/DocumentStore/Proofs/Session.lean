import DocumentStore.Proofs.Collection

/-!
# Sessions with one collection

A session is what a caller of the store can do with a collection: ask for
operations in any order, keep the documents that they give at hand, change those
and write them back, long after what is stored has changed. The directory may
hold whatever it likes beside the file of the collection, and every call has an
instant of its own.

The invariant of a session is that the file holds well-keyed documents and that
the documents at hand are fit to be written back. `Sound.step` is the step and
`Sound.run` the run. The two results about what is stored follow: it has proper
identifiers, and it can be read as long as no document is too deep.

The values that a caller hands over are well-formed. That is no condition on the
caller, whose objects are maps; it is what lists of fields do not say.
-/

namespace DocumentStore

/-! ## Requests and calls -/

/-- What can be asked of a collection. Documents at hand are named by their
place among those that were given. -/
inductive Request where
  | insertOne (doc : Value)
  | create (doc : Value)
  | insertMany (docs : List Value)
  | updateOne (filter spec : Value) (options : UpdateOptions)
  | updateMany (filter spec : Value) (options : UpdateOptions)
  | findOneAndUpdate (filter spec : Value) (options : FindOneAndUpdateOptions)
  | deleteOne (filter : Value)
  | deleteMany (filter : Value)
  | bulkWrite (models : List WriteModel)
  | findOne (filter : Value)
  | findById (id : Value)
  | search (find : Find)
  | save (handle : Nat)

namespace Request

/-- The values that are handed over are well-formed. -/
def WellFormed : Request → Prop
  | .insertOne doc => doc.WellFormed
  | .create doc => doc.WellFormed
  | .insertMany docs => ∀ doc ∈ docs, doc.WellFormed
  | .updateOne filter spec _ => filter.WellFormed ∧ spec.WellFormed
  | .updateMany filter spec _ => filter.WellFormed ∧ spec.WellFormed
  | .findOneAndUpdate filter spec _ => filter.WellFormed ∧ spec.WellFormed
  | .bulkWrite models => ∀ model ∈ models, model.WellFormed
  | .deleteOne _ => True
  | .deleteMany _ => True
  | .findOne _ => True
  | .findById _ => True
  | .search _ => True
  | .save _ => True

/-- Do what is asked, and give the documents that come of it. -/
def run (collection : Collection) (now : Instant) (handles : List Document) :
    Request → Store (List Document)
  | .insertOne doc => collection.insertOne doc >>= fun _ => pure []
  | .create doc => collection.create doc >>= fun made => pure [made]
  | .insertMany docs => collection.insertMany docs >>= fun _ => pure []
  | .updateOne filter spec options =>
      collection.updateOne now filter spec options >>= fun _ => pure []
  | .updateMany filter spec options =>
      collection.updateMany now filter spec options >>= fun _ => pure []
  | .findOneAndUpdate filter spec options =>
      collection.findOneAndUpdate now filter spec options >>= fun found =>
        pure found.toList
  | .deleteOne filter => collection.deleteOne filter >>= fun _ => pure []
  | .deleteMany filter => collection.deleteMany filter >>= fun _ => pure []
  | .bulkWrite models => collection.bulkWrite now models >>= fun _ => pure []
  | .findOne filter =>
      collection.findOne filter >>= fun found => pure found.toList
  | .findById id => collection.findById id >>= fun found => pure found.toList
  | .search find =>
      Find.run { find with file := collection.file } >>= fun found =>
        pure (found.map collection.bind)
  | .save handle =>
      match handles[handle]? with
      | some doc => doc.save >>= fun _ => pure []
      | none => throw (.notFound .documentId)

end Request

/-- A request, or an assignment to a document at hand, which asks nothing of the
collection. -/
inductive Call where
  | request (request : Request)
  | set (handle : Nat) (path : String) (value : Value)

/-- The values that are handed over are well-formed. -/
def Call.WellFormed : Call → Prop
  | .request asked => asked.WellFormed
  | .set _ _ value => value.WellFormed

/-! ## Sessions -/

/-- The world and the documents at hand. -/
structure Session where
  world : World
  handles : List Document

namespace Session

/-- A session at its start. -/
def start (world : World) : Session := ⟨world, []⟩

/-- The outcome of a call, and the session after it. -/
def step (collection : Collection) (now : Instant) (call : Call)
    (session : Session) : Result Unit × Session :=
  match call with
  | .request request =>
      match exec (request.run collection now session.handles) session.world with
      | (.ok given, world) => (.ok (), ⟨world, session.handles ++ given⟩)
      | (.error e, world) => (.error e, { session with world })
  | .set handle path value =>
      match session.handles[handle]? with
      | some doc =>
          ((doc.set path value).2,
            { session with
              handles := session.handles.set handle (doc.set path value).1 })
      | none => (.error (.notFound .documentId), session)

/-- The session after calls, each at its instant, whatever their outcomes. -/
def run (collection : Collection) : List (Instant × Call) → Session → Session
  | [], session => session
  | (now, call) :: rest, session =>
      run collection rest (session.step collection now call).2

/-! ## The invariant -/

variable {collection : Collection} {session : Session} {now : Instant}

structure Sound (collection : Collection) (session : Session) : Prop where
  stored : ∃ docs, collection.file.Holds session.world.folder docs ∧
    WellKeyed docs
  held : ∀ doc ∈ session.handles, collection.Gives doc

theorem keeps_nothing {m : Store α} {Q : α → Prop}
    (h : Keeps collection.file Anywhere m Q) :
    Keeps collection.file Anywhere (m >>= fun _ => pure []) fun given =>
      ∀ doc ∈ given, collection.Gives doc :=
  h.bind fun _ _ => Keeps.pure (by simp)

theorem keeps_option {m : Store (Option Document)}
    (h : Keeps collection.file Anywhere m fun found => ∀ doc, found = some doc →
      collection.Gives doc) :
    Keeps collection.file Anywhere (m >>= fun found => pure found.toList)
      fun given =>
      ∀ doc ∈ given, collection.Gives doc :=
  h.bind fun _ hfound => Keeps.pure fun doc hdoc =>
    hfound doc (Option.mem_toList.mp hdoc)

/-- Every request keeps the file in order and gives documents fit to be held. -/
theorem keeps_request {handles : List Document}
    (hhandles : ∀ doc ∈ handles, collection.Gives doc) {request : Request}
    (hrequest : request.WellFormed) :
    Keeps collection.file Anywhere (request.run collection now handles)
      fun given =>
      ∀ doc ∈ given, collection.Gives doc := by
  cases request with
  | insertOne doc => exact keeps_nothing (Collection.keeps_insertOne hrequest)
  | create doc =>
      exact (Collection.keeps_create hrequest).bind fun made hmade =>
        Keeps.pure fun doc hdoc => List.mem_singleton.mp hdoc ▸ hmade
  | insertMany docs =>
      exact keeps_nothing (Collection.keeps_insertMany hrequest)
  | updateOne filter spec options =>
      exact keeps_nothing
        (Collection.keeps_update hrequest.1 hrequest.2 false options)
  | updateMany filter spec options =>
      exact keeps_nothing
        (Collection.keeps_update hrequest.1 hrequest.2 true options)
  | findOneAndUpdate filter spec options =>
      exact keeps_option
        (Collection.keeps_findOneAndUpdate hrequest.1 hrequest.2 options)
  | deleteOne filter => exact keeps_nothing (Collection.keeps_delete false)
  | deleteMany filter => exact keeps_nothing (Collection.keeps_delete true)
  | bulkWrite models =>
      exact keeps_nothing (Collection.keeps_bulkWrite hrequest)
  | findOne filter => exact keeps_option Collection.keeps_findOne
  | findById id => exact keeps_option Collection.keeps_findById
  | search find =>
      refine (Collection.keeps_search rfl).bind fun found hfound =>
        Keeps.pure fun doc hdoc => ?_
      obtain ⟨v, hv, rfl⟩ := List.mem_map.mp hdoc
      exact ⟨rfl, hfound v hv⟩
  | save handle =>
      rw [Request.run]
      split
      · next doc hdoc =>
          obtain ⟨hfile, hheld⟩ := hhandles doc (List.mem_of_getElem? hdoc)
          have hsave := Document.keeps_save hheld
          rw [hfile] at hsave
          exact keeps_nothing hsave
      · exact Keeps.throw _

theorem sound_start {world : World}
    (h : world.folder.find collection.file.name = .ok none) :
    Sound collection (start world) := by
  have hnone : ∀ entry, world.folder.find collection.file.name ≠
      .ok (some entry) := by
    intro entry hentry
    rw [h] at hentry
    cases hentry
  exact ⟨⟨[], .inr ⟨rfl, hnone⟩, Keyed.nil⟩, by simp [start]⟩

theorem Sound.step (h : Sound collection session) {call : Call}
    (hcall : call.WellFormed) :
    Sound collection (session.step collection now call).2 := by
  obtain ⟨docs, hholds, hkeyed⟩ := h.stored
  cases call with
  | request asked =>
      have hkeeps : Keeps collection.file Anywhere
          (asked.run collection now session.handles) _ :=
        keeps_request h.held hcall
      obtain ⟨hstored, hgiven⟩ :=
        hkeeps session.world docs trivial hholds hkeyed
      rw [Session.step]
      cases hrun : exec (asked.run collection now session.handles)
        session.world with
      | mk outcome world =>
          rw [hrun] at hstored hgiven
          cases outcome with
          | ok given =>
              refine ⟨hstored, ?_⟩
              intro doc hdoc
              rcases List.mem_append.mp hdoc with hdoc | hdoc
              · exact h.held doc hdoc
              · exact (hgiven given rfl).2 doc hdoc
          | error e => exact ⟨hstored, h.held⟩
  | set handle path value =>
      rw [Session.step]
      split
      · next doc hdoc =>
          obtain ⟨hfile, hheld⟩ := h.held doc (List.mem_of_getElem? hdoc)
          refine ⟨h.stored, ?_⟩
          intro d hd
          rcases List.mem_or_eq_of_mem_set hd with hd | rfl
          · exact h.held d hd
          · exact ⟨(Document.file_set doc path value).trans hfile,
              Document.held_set hheld hcall⟩
      · exact h

theorem Sound.run (h : Sound collection session) {calls : List (Instant × Call)}
    (hcalls : ∀ call ∈ calls, call.2.WellFormed) :
    Sound collection (run collection calls session) := by
  induction calls generalizing session with
  | nil => exact h
  | cons call rest ih =>
      exact ih (h.step (hcalls call List.mem_cons_self)) fun c hc =>
        hcalls c (List.mem_cons_of_mem _ hc)

/-! ## What is stored -/

variable {world : World} {calls : List (Instant × Call)}

/-- A world without a data directory. -/
def nowhere : World := ⟨none, ⟨fun n => String.ofList (Nat.toDigits 10 n), 0⟩⟩

def people : Collection := .ofConfig {} "people"

def epoch : Instant := ⟨0, 0, by decide⟩

/-- After any calls on a collection whose file was not there, each document that
the file holds is an object with an identifier that is not null, and no two have
the same string for one. What is read of the file is what it holds. -/
theorem stored_ids_proper
    (hnew : world.folder.find collection.file.name = .ok none)
    (hcalls : ∀ call ∈ calls, call.2.WellFormed) :
    ∃ docs, collection.file.Holds
      (run collection calls (start world)).world.folder docs ∧
      (∀ doc ∈ docs, doc.isObject = true ∧ ∃ id, doc.field? idKey = some id ∧
        id ≠ .null) ∧
      (∀ (i j : Nat) (a b : Value) (s : String), docs[i]? = some a →
          docs[j]? = some b →
        a.field? idKey = some (.string s) →
          b.field? idKey = some (.string s) → i = j) ∧
      ∀ found, collection.file.read
        (run collection calls (start world)).world.folder = .ok found →
        found = docs := by
  obtain ⟨docs, hholds, hkeyed⟩ := ((sound_start hnew).run hcalls).stored
  refine ⟨docs, hholds, ?_, ?_, ?_⟩
  · intro doc hdoc
    have hidentified := hkeyed.identified doc hdoc
    obtain ⟨id, hid, hnull⟩ := hidentified.hasId
    refine ⟨hidentified.isObject, id, hid, ?_⟩
    rintro rfl
    cases hnull
  · intro i j a b s hi hj ha hb
    rw [← Value.idText?_eq_string_iff] at ha hb
    exact hkeyed.eq_of_text ⟨s, rfl⟩ hi hj ha hb
  · intro found hfound
    exact hholds.eq_of_read hkeyed.storable hfound

/-- Calls that create a document, change it at hand and write it back, and then
a bulk write that fails at its second operation. -/
def mixedCalls : List (Instant × Call) :=
  [(epoch, .request (.create (.object []))),
    (epoch, .set 0 "name" (.string "ada")), (epoch, .request (.save 0)),
    (epoch, .request (.bulkWrite [.insertOne (.object [(idKey, .string "a")]),
      .insertOne (.object [(idKey, .string "a")])]))]

theorem wellFormed_mixedCalls : ∀ call ∈ mixedCalls, call.2.WellFormed := by
  simp [mixedCalls, Call.WellFormed, Request.WellFormed, WriteModel.WellFormed,
    Value.WellFormed, Value.FieldsWellFormed, Fields.keys]

theorem stored_ids_proper_mixedCalls :
    nowhere.folder.find people.file.name = .ok none ∧
      (∀ call ∈ mixedCalls, call.2.WellFormed) ∧
      ∃ docs,
        people.file.Holds
          (run people mixedCalls (start nowhere)).world.folder docs ∧
        (∀ doc ∈ docs, doc.isObject = true ∧ ∃ id, doc.field? idKey = some id ∧
          id ≠ .null) ∧
        (∀ (i j : Nat) (a b : Value) (s : String), docs[i]? = some a →
            docs[j]? = some b →
          a.field? idKey = some (.string s) →
            b.field? idKey = some (.string s) → i = j) ∧
        ∀ found,
          people.file.read
            (run people mixedCalls (start nowhere)).world.folder = .ok found →
          found = docs :=
  ⟨rfl, wellFormed_mixedCalls, stored_ids_proper rfl wellFormed_mixedCalls⟩

/-- After a request that succeeded the file is read, unless a document in it is
too deep: then, and only then, it is refused as a text that is no JSON. -/
theorem read_after_request
    (hnew : world.folder.find collection.file.name = .ok none)
    (hcalls : ∀ call ∈ calls, call.2.WellFormed) {request : Request}
    (hrequest : request.WellFormed) {after : Session}
    (hstep : (run collection calls (start world)).step collection now
      (.request request) =
      (.ok (), after)) :
    ∃ docs, collection.file.Holds after.world.folder docs ∧
      exec collection.file.load after.world =
        (if ∀ doc ∈ docs, doc.depth < CollectionFile.greatestDepth then .ok docs
          else .error .serialization, after.world) := by
  have hsound := (sound_start hnew).run hcalls
  obtain ⟨before, hbefore, hbeforeKeyed⟩ := hsound.stored
  have hkeeps : Keeps collection.file Anywhere
      (request.run collection now
        (run collection calls (start world)).handles) _ :=
    keeps_request hsound.held hrequest
  obtain ⟨⟨docs, hholds, hkeyed⟩, hok⟩ :=
    hkeeps _ before trivial hbefore hbeforeKeyed
  rw [step] at hstep
  cases hrun : exec (request.run collection now
      (run collection calls (start world)).handles)
      (run collection calls (start world)).world with
  | mk outcome world' =>
      simp only [hrun] at hstep hholds hok
      cases outcome with
      | error e => cases hstep
      | ok given =>
          cases hstep
          refine ⟨docs, hholds, ?_⟩
          rw [CollectionFile.exec_load,
            hholds.read_eq hkeyed.storable (hok given rfl).1]
          simp only [CollectionFile.depth_le_iff]

theorem read_after_request_insertOne :
    nowhere.folder.find people.file.name = .ok none ∧
      ∃ after, (start nowhere).step people epoch
          (.request (.insertOne (.object [(idKey, .string "b")]))) =
            (.ok (), after) ∧
        ∃ docs, people.file.Holds after.world.folder docs ∧
          exec people.file.load after.world =
            (if ∀ doc ∈ docs, doc.depth <
                CollectionFile.greatestDepth then .ok docs
              else .error .serialization, after.world) := by
  have hcalls : ∀ call ∈ ([] : List (Instant × Call)),
      call.2.WellFormed := by simp
  have hrequest :
      (Request.insertOne (.object [(idKey, .string "b")])).WellFormed := by
    simp [Request.WellFormed, Value.WellFormed, Value.FieldsWellFormed,
      Fields.keys]
  have hok : ((start nowhere).step people epoch
      (.request (.insertOne (.object [(idKey, .string "b")])))).1 = .ok () := by
    decide +kernel
  have hstep : (run people [] (start nowhere)).step people epoch
      (.request (.insertOne (.object [(idKey, .string "b")]))) = (.ok (), _) :=
    Prod.ext hok rfl
  exact ⟨rfl, _, hstep, read_after_request rfl hcalls hrequest hstep⟩

end Session

end DocumentStore
