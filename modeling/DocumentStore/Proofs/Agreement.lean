import DocumentStore.Proofs.Session
import DocumentStore.Proofs.Write.Places
import Mathlib.Data.Option.Basic

/-!
# Where reading and writing agree

A search, a count and a write take the same filter to the same documents, except
where the write looks an identifier up in the index and the search asks every
document: then the search finds more, namely the documents whose identifier is
an array with the string in it. In any state that a session reaches this is the
only difference, and what follows from it is said below.
-/

namespace DocumentStore

variable {collection : Collection} {world after : World}
  {docs found : List Value}
  {fields : List (String × Value)} {filter clause : Value}

/-! ## What the operations give -/

namespace Find

theorem exec_run (hread : collection.file.read world.folder = .ok docs)
    (hfields : (Fields.keys fields).Nodup) :
    (exec (collection.find (.object fields)).run world).1 =
      Filter.select (.object fields) docs := by
  have hfind : collection.find (.object fields) =
      { file := collection.file, filter := fields } := by
    rw [Collection.find, Find.narrow, Fields.merge_nil hfields]
  rw [hfind, run, Find.found, bind_assoc,
    CollectionFile.exec_load_bind hread, exec_bind, Store.ofResult, exec_mk]
  cases Filter.select (.object fields) docs with
  | error e => rfl
  | ok found =>
      show (.ok (found.drop 0) : Result (List Value)) = .ok found
      rw [List.drop_zero]

end Find

namespace Collection

theorem exec_count (hread : collection.file.read world.folder = .ok docs) :
    (exec (collection.count (.object fields)) world).1 =
      List.length <$> Filter.select (.object fields) docs := by
  rw [count, exec_bind]
  show (exec (collection.file.load >>= fun docs => _) world).1 = _
  rw [CollectionFile.exec_load_bind hread, exec_bind, Store.ofResult, exec_mk]
  cases Filter.select (.object fields) docs with
  | error e => rfl
  | ok found => rfl

theorem firstMatch_eq
    (hdecided : ∀ doc ∈ docs, ∃ b, Filter.isMatch clause doc = .ok b) :
    firstMatch clause docs = .ok (docs.find? (Filter.selects clause)) := by
  induction docs with
  | nil => rfl
  | cons doc rest ih =>
      obtain ⟨b, hb⟩ := hdecided doc List.mem_cons_self
      have hrest := ih fun d hd => hdecided d (List.mem_cons_of_mem _ hd)
      rw [firstMatch, List.find?_cons, Filter.selects, hb, hrest]
      cases b with
      | true => rfl
      | false => rfl

theorem exec_findOne_ofId (hread : collection.file.read world.folder = .ok docs)
    (s : String) :
    (exec (collection.findOne (Filter.ofId s)) world).1 =
      .ok ((docs.find? (Filter.selects (Filter.ofId s))).map
        collection.bind) := by
  have hdecided : ∀ doc ∈ docs,
      ∃ b, Filter.isMatch (Filter.ofId s) doc = .ok b := by
    intro doc hdoc
    obtain ⟨b, hb, -⟩ := Filter.isMatch_ofId s doc
    exact ⟨b, hb⟩
  rw [findOne, exec_bind]
  show (exec (collection.file.load >>= fun docs => _) world).1 = _
  rw [CollectionFile.exec_load_bind hread]
  have hmatch : firstMatch (.object [(idKey, .string s)]) docs = _ :=
    firstMatch_eq hdecided
  rw [exec_bind, Store.ofResult, exec_mk, hmatch]
  rfl

theorem exec_findById_string
    (hread : collection.file.read world.folder = .ok docs) (s : String) :
    (exec (collection.findById (.string s)) world).1 =
      .ok ((docs.find? (Filter.acts (Filter.ofId s))).map collection.bind) := by
  have hexact : IdIndex.Exact IdIndex.IsStringText (IdIndex.build docs) docs :=
    IdIndex.exact_build _ docs
  have hacts : Filter.acts (Filter.ofId s) =
      fun doc : Value => decide (doc.field? idKey = some (.string s)) := by
    funext doc
    rw [Filter.acts, Filter.soughtId?_ofId]
  rw [findById, CollectionFile.exec_load_bind hread]
  show Except.ok ((((IdIndex.build docs).find? (.string s)).bind (docs[·]?)).map
      collection.bind) = _
  rw [hexact.find?_string, ← List.find?_eq_bind_findIdx?_getElem?, hacts]

theorem bind_injective (collection : Collection) {v w : Value}
    (h : collection.bind v = collection.bind w) : v = w :=
  congrArg Document.value h

/-- What a deletion that succeeds leaves: the documents that it does not act
on. -/
theorem holds_deleteMany {n : Nat}
    (hread : collection.file.read world.folder = .ok docs)
    (hholds : collection.file.Holds world.folder docs) (hkeyed : WellKeyed docs)
    (hfind : Filter.select (.object fields) docs = .ok found)
    (hdelete : exec (collection.deleteMany (.object fields)) world =
      (.ok n, after)) :
    collection.file.Holds after.folder
      (docs.filter fun doc => !Filter.acts (.object fields) doc) ∧
      collection.file.Reachable after.folder := by
  obtain ⟨batch, hrun, hleft⟩ := Write.exec_deleteAll hkeyed hfind world.ids
  rw [deleteMany, delete, exec_bind, exec_edit, hread] at hdelete
  simp only [hrun] at hdelete
  rw [exec_bind, Store.ofResult, exec_mk] at hdelete
  dsimp only at hdelete
  split at hdelete
  · rw [exec_bind] at hdelete
    rcases collection.file.save_cases batch.docs { world with
        ids := batch.ids } with
      ⟨folder, hsave, hfile⟩ | ⟨e, hsave, -⟩
    · rw [hsave] at hdelete
      cases hdelete
      rw [hleft] at hfile
      exact ⟨.inl hfile, _, hfile⟩
    · rw [hsave] at hdelete
      cases hdelete
  · next hempty =>
      cases hdelete
      have hnone : docs.filter (Filter.acts (.object fields)) = [] := by
        simpa using hempty
      have hall : (docs.filter fun doc => !Filter.acts (.object fields) doc) =
          docs := by
        rw [List.filter_eq_self]
        intro doc hdoc
        simpa using List.filter_eq_nil_iff.mp hnone doc hdoc
      rw [hall]
      exact ⟨hholds, CollectionFile.reachable_of_read hread⟩

end Collection

/-! ## Where they agree -/

namespace Filter

/-- The documents acted on are the documents found unless the filter crosses one
of them. -/
theorem filter_acts_eq_iff :
    docs.filter (acts filter) = docs.filter (selects filter) ↔
    ∀ doc ∈ docs, ¬ Crosses filter doc := by
  refine ⟨?_, ?_⟩
  · intro heq doc hdoc hcross
    have hmem : doc ∈ docs.filter (acts filter) := by
      rw [heq, List.mem_filter]
      exact ⟨hdoc, selects_iff.mpr (.inr hcross)⟩
    have hacts := (List.mem_filter.mp hmem).2
    rw [not_acts_of_crosses hcross] at hacts
    cases hacts
  · intro hnone
    refine List.filter_congr fun doc hdoc => ?_
    rw [Bool.eq_iff_iff, selects_iff]
    simp [hnone doc hdoc]

/-- Nothing is found among the documents not acted on unless the filter crosses
one of them. -/
theorem filter_selects_eq_nil_iff :
    ((docs.filter fun doc => !acts filter doc).filter (selects filter)) = [] ↔
      ∀ doc ∈ docs, ¬ Crosses filter doc := by
  rw [List.filter_eq_nil_iff]
  refine ⟨?_, ?_⟩
  · intro hnone doc hdoc hcross
    have hleft : doc ∈ docs.filter fun doc => !acts filter doc := by
      rw [List.mem_filter, not_acts_of_crosses hcross]
      exact ⟨hdoc, rfl⟩
    exact hnone doc hleft (selects_iff.mpr (.inr hcross))
  · intro hnone doc hleft hselects
    obtain ⟨hdoc, hacts⟩ := List.mem_filter.mp hleft
    rcases selects_iff.mp hselects with h | hcross
    · rw [h] at hacts
      cases hacts
    · exact hnone doc hdoc hcross

/-- Before each document whose identifier spreads over the string stands the one
whose identifier it is. -/
def IdFirst (s : String) (docs : List Value) : Prop :=
  ∀ (i : Nat) (doc : Value), docs[i]? = some doc → doc.Spreads s →
    ∃ (j : Nat) (first : Value), j < i ∧ docs[j]? = some first ∧
      first.field? idKey = some (.string s)

theorem acts_ofId_iff {s : String} {doc : Value} :
    acts (ofId s) doc = true ↔ doc.field? idKey = some (.string s) := by
  rw [acts, soughtId?_ofId]
  exact decide_eq_true_iff

theorem crosses_ofId_iff {s : String} {doc : Value} :
    Crosses (ofId s) doc ↔ doc.Spreads s := by
  refine ⟨?_, fun h => ⟨s, rfl, h⟩⟩
  rintro ⟨t, ht, h⟩
  rw [ofId, ofId] at ht
  cases ht
  exact h

theorem find?_acts_eq_iff {s : String} :
    docs.find? (acts (ofId s)) = docs.find? (selects (ofId s)) ↔
      IdFirst s docs := by
  induction docs with
  | nil => simp [IdFirst]
  | cons doc rest ih =>
      rw [List.find?_cons, List.find?_cons]
      cases hacts : acts (ofId s) doc with
      | true =>
          have hselects : selects (ofId s) doc = true :=
            selects_iff.mpr (.inl hacts)
          rw [hselects]
          refine iff_of_true rfl ?_
          intro i d hd hspreads
          have hid := acts_ofId_iff.mp hacts
          cases i with
          | zero =>
              cases hd
              obtain ⟨items, hitems, -⟩ := hspreads
              rw [hid] at hitems
              cases hitems
          | succ i => exact ⟨0, doc, Nat.succ_pos i, rfl, hid⟩
      | false =>
          cases hselects : selects (ofId s) doc with
          | true =>
              have hcross : Crosses (ofId s) doc := by
                refine (selects_iff.mp hselects).resolve_left ?_
                rw [hacts]
                exact Bool.false_ne_true
              refine iff_of_false ?_ ?_
              · intro heq
                have hfound := List.find?_some heq
                rw [hacts] at hfound
                cases hfound
              · intro hfirst
                obtain ⟨j, first, hlt, -⟩ :=
                  hfirst 0 doc rfl (crosses_ofId_iff.mp hcross)
                exact Nat.not_lt_zero j hlt
          | false =>
              have hspreads : ¬ doc.Spreads s := by
                intro h
                rw [selects_iff.mpr (.inr (crosses_ofId_iff.mpr h))] at hselects
                cases hselects
              have hid : doc.field? idKey ≠ some (.string s) := by
                intro h
                rw [acts_ofId_iff.mpr h] at hacts
                cases hacts
              rw [ih]
              refine ⟨?_, ?_⟩
              · intro hfirst i d hd hds
                cases i with
                | zero =>
                    cases hd
                    exact absurd hds hspreads
                | succ i =>
                    obtain ⟨j, first, hlt, hget, hfid⟩ := hfirst i d hd hds
                    exact ⟨j + 1, first, Nat.succ_lt_succ hlt, hget, hfid⟩
              · intro hfirst i d hd hds
                obtain ⟨j, first, hlt, hget, hfid⟩ := hfirst (i + 1) d hd hds
                cases j with
                | zero =>
                    cases hget
                    exact absurd hfid hid
                | succ j =>
                    exact ⟨j, first, Nat.lt_of_succ_lt_succ hlt, hget, hfid⟩

end Filter

/-- In a state that a session reaches, and for a filter that can be asked of
every document: the count is the number of documents found. A write acts on the
documents found, and after deleting them none is found, exactly if the filter
does not ask for a string as the identifier that is in the array that identifies
a document. Looking a string up finds what a search for it finds first exactly
if no such document stands before the one with this identifier. -/
theorem reads_and_writes_agree {calls : List (Instant × Call)}
    {session : Session}
    (hnew : world.folder.find collection.file.name = .ok none)
    (hcalls : ∀ call ∈ calls, call.2.WellFormed)
    (hrun : Session.run collection calls (.start world) = session)
    (hread : collection.file.read session.world.folder = .ok docs)
    (hfilter : (Value.object fields).WellFormed)
    (hfind : (exec (collection.find (.object fields)).run session.world).1 =
      .ok found) :
    (exec (collection.count (.object fields)) session.world).1 =
      .ok found.length ∧
      (∃ places, Write.places (.ofDocs docs session.world.ids)
          (.object fields) true = .ok places ∧
        (places.filterMap (docs[·]?) = found ↔
          ∀ doc ∈ docs, ¬ Filter.Crosses (.object fields) doc)) ∧
      (∀ n after, exec (collection.deleteMany (.object fields)) session.world =
          (.ok n, after) →
        ((exec (collection.count (.object fields)) after).1 = .ok 0 ↔
          ∀ doc ∈ docs, ¬ Filter.Crosses (.object fields) doc)) ∧
      ∀ s, (exec (collection.findById (.string s)) session.world).1 =
          (exec (collection.findOne (Filter.ofId s)) session.world).1 ↔
            Filter.IdFirst s docs := by
  obtain ⟨stored, hstored, hkeyed⟩ :=
    (hrun ▸ (Session.sound_start hnew).run hcalls).stored
  have hdocs : docs = stored :=
    hstored.eq_of_read hkeyed.storable hread
  subst hdocs
  have hkeys := (Value.wellFormed_object_iff.mp hfilter).1
  rw [Find.exec_run hread hkeys] at hfind
  have hdecided := Filter.decided_of_select hfind
  have hfound : docs.filter (Filter.selects (.object fields)) = found := by
    rw [Filter.select_eq hdecided] at hfind
    exact Except.ok.inj hfind
  refine ⟨?_, ?_, ?_, ?_⟩
  · rw [Collection.exec_count hread, hfind]
    rfl
  · refine ⟨_, Write.places_eq hkeyed hfind _, ?_⟩
    rw [← hfound, ← Filter.filter_acts_eq_iff]
    have hpicked := Write.filterMap_placesWhere
      (Filter.acts (.object fields)) 0 docs
    simp only [Nat.sub_zero] at hpicked
    rw [hpicked]
  · intro n after hdelete
    obtain ⟨hleft, hreachable⟩ :=
      Collection.holds_deleteMany hread hstored hkeyed hfind hdelete
    have hmem : ∀ doc ∈ docs.filter
        (fun doc => !Filter.acts (.object fields) doc), doc ∈ docs :=
      fun doc hdoc => (List.mem_filter.mp hdoc).1
    have hdeep : ∀ doc ∈ docs, doc.depth < CollectionFile.greatestDepth := by
      have hlimit := hstored.read_eq hkeyed.storable
        (CollectionFile.reachable_of_read hread)
      rw [hread] at hlimit
      split at hlimit
      · next hdepth => exact CollectionFile.depth_le_iff.mp hdepth
      · cases hlimit
    have hreadAfter := hleft.read_eq
      (fun doc hdoc => hkeyed.storable doc (hmem doc hdoc)) hreachable
    rw [if_pos (CollectionFile.depth_le_iff.mpr fun doc hdoc =>
        hdeep doc (hmem doc hdoc))]
      at hreadAfter
    rw [Collection.exec_count hreadAfter,
      Filter.select_eq fun doc hdoc => hdecided doc (hmem doc hdoc),
      ← Filter.filter_selects_eq_nil_iff]
    show (Except.ok _ : Result Nat) = .ok 0 ↔ _
    rw [Except.ok.injEq, List.length_eq_zero_iff]
  · intro s
    rw [Collection.exec_findById_string hread,
      Collection.exec_findOne_ofId hread, ← Filter.find?_acts_eq_iff,
      Except.ok.injEq]
    exact (Option.map_injective
      fun v w => Collection.bind_injective collection).eq_iff

/-- A document is inserted whose identifier is an array with a string in it. -/
def crossedCalls : List (Instant × Call) :=
  [(Session.epoch,
    .request (.insertOne (.object [(idKey, .array [.string "a"])])))]

theorem wellFormed_crossedCalls : ∀ call ∈ crossedCalls, call.2.WellFormed := by
  simp [crossedCalls, Call.WellFormed, Request.WellFormed, Value.WellFormed,
    Value.FieldsWellFormed, Value.ItemsWellFormed, Fields.keys]

/-- Then the string is asked for: one document is found, none is deleted, and
one is found still. -/
theorem reads_and_writes_part_crossedCalls :
    ∃ session after,
      Session.run Session.people crossedCalls
        (.start Session.nowhere) = session ∧
      (exec (Session.people.count (.object [(idKey, .string "a")]))
        session.world).1 = .ok 1 ∧
      exec (Session.people.deleteMany (.object [(idKey, .string "a")]))
        session.world =
        (.ok 0, after) ∧
      (exec (Session.people.count (.object [(idKey, .string "a")])) after).1 ≠
        .ok 0 := by
  have hread : Session.people.file.read
      (Session.run Session.people crossedCalls
          (.start Session.nowhere)).world.folder =
        .ok [.object [(idKey, .array [.string "a"])]] := by
    decide +kernel
  have hfind : (exec (Session.people.find (.object [(idKey, .string "a")])).run
      (Session.run Session.people crossedCalls
          (.start Session.nowhere)).world).1 =
        .ok [.object [(idKey, .array [.string "a"])]] := by
    decide +kernel
  have hdelete :
      (exec (Session.people.deleteMany (.object [(idKey, .string "a")]))
      (Session.run Session.people crossedCalls
        (.start Session.nowhere)).world).1 = .ok 0 := by
    decide +kernel
  have hfilter : (Value.object [(idKey, .string "a")]).WellFormed := by
    simp [Value.WellFormed, Value.FieldsWellFormed, Fields.keys]
  have hspreads : (Value.object [(idKey, .array [.string "a"])]).Spreads "a" :=
    ⟨[.string "a"], rfl, by simp [Value.leavesOfItems, Value.leaves]⟩
  obtain ⟨session, hrun⟩ :
      ∃ session, Session.run Session.people crossedCalls
        (.start Session.nowhere) = session := ⟨_, rfl⟩
  rw [hrun] at hread hfind hdelete
  cases hafter : exec (Session.people.deleteMany
    (.object [(idKey, .string "a")])) session.world with
  | mk outcome after =>
      rw [hafter] at hdelete
      cases hdelete
      obtain ⟨hcount, -, hleft, -⟩ :=
        reads_and_writes_agree rfl wellFormed_crossedCalls hrun hread
          hfilter hfind
      refine ⟨session, after, hrun, hcount, hafter, ?_⟩
      rw [Ne, hleft 0 after hafter]
      intro hnone
      exact hnone _ (List.mem_singleton.mpr rfl)
        (Filter.crosses_ofId_iff.mpr hspreads)

end DocumentStore
