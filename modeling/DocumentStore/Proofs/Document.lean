import DocumentStore.Proofs.Atomicity

/-!
# Documents at hand

A document at hand is changed where it stands. So an assignment that fails does
not take back what it did on its way, and the one thing that it can leave is an
empty array (`set_atomic_unless_far`). Its file and its identifier stay the same
in any case.

Written back, it is matched by the text of its identifier with the documents
that are stored by then, however old it is itself. If no two of these have the
same text, there is at most one place for it: `saved` is the list after that.
Where the document is stored as it is at hand, the list after that is the list
before, so that nothing comes of writing back what an operation just gave
(`save_touches_one`).
-/

namespace DocumentStore

variable {docs : List Value} {world : World}

namespace Document

variable {doc after : Document} {path : String} {new : Value}
  {outcome : Result Unit}

/-! ## Assignments -/

/-- A failed assignment changes the document if it comes to an index that is too
far for an empty array where there was no container yet, and only then. -/
theorem set_atomic_unless_far (h : doc.set path new = (after, outcome)) :
    after.file = doc.file ∧ after.id? = doc.id? ∧
      ∀ e, outcome = .error e → (after ≠ doc ↔ ∃ p, Path.parse path = .ok p ∧
        Path.LeavesArray p.segments doc.value after.value e) := by
  have hfile := file_set doc path new
  have hid := id?_set doc path new
  rw [h] at hfile hid
  refine ⟨hfile, hid, ?_⟩
  rintro e rfl
  rw [set] at h
  split at h
  · next fault hparse =>
      cases h
      refine ⟨fun hne => absurd rfl hne, ?_⟩
      rintro ⟨p, hp, -⟩
      rw [hparse] at hp
      cases hp
  · next p hparse =>
      split at h
      · cases h
        refine ⟨fun hne => absurd rfl hne, ?_⟩
        rintro ⟨-, -, done, i, rest, -, -, he, -⟩
        cases he
      · cases hassign : Path.assign p.segments new doc.value with
        | mk changed result =>
            rw [hassign] at h
            cases h
            have hvalue : (⟨changed, doc.file⟩ : Document) ≠ doc ↔
                changed ≠ doc.value :=
              not_congr ⟨congrArg value, fun heq => by rw [heq]⟩
            rw [hvalue, Path.ne_of_assign_error_iff hassign, hparse]
            refine ⟨fun hleaves => ⟨p, rfl, hleaves⟩, ?_⟩
            rintro ⟨q, hq, hleaves⟩
            cases hq
            exact hleaves

theorem set_atomic_unless_far_list :
    ∃ after, (Session.people.bind (bare "a")).set "list.20000" (.bool true) =
        (after, .error (.invalidPath (.farIndex 20000 0))) ∧
      after.value = .object [(idKey, .string "a"), ("list", .array [])] ∧
      after.file = Session.people.file ∧ after.id? = some (.string "a") ∧
      ∃ p, Path.parse "list.20000" = .ok p ∧
        Path.LeavesArray p.segments (bare "a")
        after.value (.invalidPath (.farIndex 20000 0)) := by
  have hset : (Session.people.bind (bare "a")).set "list.20000" (.bool true) =
      (Session.people.bind (.object [(idKey, .string "a"), ("list", .array [])]),
        .error (.invalidPath (.farIndex 20000 0))) := by
    decide +kernel
  obtain ⟨hfile, hid, hchanged⟩ := set_atomic_unless_far hset
  exact ⟨_, hset, rfl, hfile, hid, (hchanged _ rfl).mp (by decide +kernel)⟩

/-! ## Writing back -/

/-- The documents after this one was written back: it takes the place of the
first one with the text of its identifier, or it goes last. -/
def saved (doc : Document) (docs : List Value) : List Value :=
  match docs.findIdx? fun stored => stored.idText? = doc.value.idText? with
  | some place => docs.set place doc.value
  | none => docs ++ [doc.value]

theorem exec_save {id : Value} (hid : doc.id? = some id)
    (hread : doc.file.read world.folder = .ok docs) :
    exec doc.save world = exec (doc.file.save (doc.saved docs)) world := by
  have htext := Value.idText?_of_field? hid
  have hfind : (IdIndex.build docs).find? id =
      docs.findIdx? fun stored => stored.idText? = doc.value.idText? := by
    rw [IdIndex.find?,
      IdIndex.exact_build IdIndex.AnyText docs _ trivial, htext]
  rw [save, hid]
  dsimp only
  rw [CollectionFile.exec_load_bind hread, hfind, saved]
  cases docs.findIdx? fun stored => stored.idText? = doc.value.idText? with
  | some place => rfl
  | none => rfl

/-- A file that cannot be read is not written. -/
theorem exec_save_of_read_error {e : Error}
    (hread : doc.file.read world.folder = .error e) :
    (exec doc.save world).2 = world := by
  rw [save]
  cases doc.id? with
  | none => rfl
  | some id =>
      dsimp only
      rw [exec_bind, CollectionFile.exec_load, hread]

theorem exec_save_of_no_id (hid : doc.id? = none) :
    (exec doc.save world).2 = world := by
  rw [save, hid]
  rfl

theorem saved_cases (doc : Document) (docs : List Value) :
    (∃ (place : Nat) (old : Value),
        docs[place]? = some old ∧ old.idText? = doc.value.idText? ∧
        doc.saved docs = docs.set place doc.value) ∨
      (∀ old ∈ docs, old.idText? ≠ doc.value.idText?) ∧
        doc.saved docs = docs ++ [doc.value] := by
  rw [saved]
  cases hfind : docs.findIdx? fun stored =>
    stored.idText? = doc.value.idText? with
  | some place =>
      obtain ⟨hplace, htext, -⟩ := List.findIdx?_eq_some_iff_getElem.mp hfind
      exact .inl ⟨place, docs[place], List.getElem?_eq_getElem hplace,
        of_decide_eq_true htext, rfl⟩
  | none =>
      exact .inr ⟨fun old hold =>
        of_decide_eq_false (List.findIdx?_eq_none_iff.mp hfind old hold), rfl⟩

theorem mem_saved {d : Value} (h : d ∈ doc.saved docs) :
    d ∈ docs ∨ d = doc.value := by
  rcases saved_cases doc docs with ⟨place, old, -, -, hsaved⟩ | ⟨-, hsaved⟩
  · rw [hsaved] at h
    exact List.mem_or_eq_of_mem_set h
  · rw [hsaved, List.mem_append, List.mem_singleton] at h
    exact h

/-- Documents with other texts stay where they are. -/
theorem getElem?_saved {place : Nat} {old : Value}
    (hget : docs[place]? = some old)
    (hother : old.idText? ≠ doc.value.idText?) :
    (doc.saved docs)[place]? = some old := by
  rcases saved_cases doc docs with
    ⟨found, same, hsame, htext, hsaved⟩ | ⟨-, hsaved⟩
  · have hne : found ≠ place := by
      rintro rfl
      rw [hget] at hsame
      cases hsame
      exact hother htext
    rw [hsaved, List.getElem?_set_ne hne, hget]
  · rw [hsaved, List.getElem?_append_left
      (List.getElem?_eq_some_iff.mp hget).1, hget]

theorem saved_of_new (hnew : ∀ old ∈ docs, old.idText? ≠ doc.value.idText?) :
    doc.saved docs = docs ++ [doc.value] := by
  rcases saved_cases doc docs with ⟨place, old, hget, htext, -⟩ | ⟨-, hsaved⟩
  · exact absurd htext (hnew old (List.mem_of_getElem? hget))
  · exact hsaved

theorem saved_of_place {text : String}
    (hapart : docs.Pairwise (Value.Apart IdIndex.AnyText))
    (hid : doc.value.idText? = some text) {place : Nat} {old : Value}
    (hget : docs[place]? = some old) (htext : old.idText? = some text) :
    doc.saved docs = docs.set place doc.value := by
  rcases saved_cases doc docs with
    ⟨found, same, hsame, hsameText, hsaved⟩ | ⟨hnew, -⟩
  · rw [hid] at hsameText
    cases Value.eq_of_apart hapart trivial hsame hget hsameText htext
    exact hsaved
  · exact absurd (htext.trans hid.symm) (hnew old (List.mem_of_getElem? hget))

theorem apart_saved (hapart : docs.Pairwise (Value.Apart IdIndex.AnyText)) :
    (doc.saved docs).Pairwise (Value.Apart IdIndex.AnyText) := by
  rcases saved_cases doc docs with
    ⟨place, old, hget, htext, hsaved⟩ | ⟨hnew, hsaved⟩
  · rw [hsaved]
    exact Value.apart_set hapart hget fun text _ => by rw [htext]
  · rw [hsaved]
    refine Value.apart_append hapart fun old hold text _ holdText hdocText => ?_
    exact hnew old hold (holdText.trans hdocText.symm)

/-- A document that is stored as it is at hand changes nothing. -/
theorem saved_of_mem {text : String}
    (hapart : docs.Pairwise (Value.Apart IdIndex.AnyText))
    (hid : doc.value.idText? = some text) (hmem : doc.value ∈ docs) :
    doc.saved docs = docs := by
  obtain ⟨place, hplace, hget⟩ := List.mem_iff_getElem.mp hmem
  have hgot : docs[place]? = some doc.value := by
    rw [List.getElem?_eq_getElem hplace, hget]
  rw [saved_of_place hapart hid hgot hid, ← hget]
  exact List.set_getElem_self hplace

theorem exec_save_eq_ok {id : Value} {after : World} (hid : doc.id? = some id)
    (hread : doc.file.read world.folder = .ok docs)
    (hsave : exec doc.save world = (.ok (), after)) :
    doc.file.Writable world.folder ∧
      after = ⟨doc.file.written world.folder (doc.saved docs), world.ids⟩ := by
  rw [exec_save hid hread] at hsave
  have hwrite := CollectionFile.save_ok_iff.mp (congrArg Prod.fst hsave)
  rw [CollectionFile.exec_save,
    CollectionFile.write_of_writable hwrite] at hsave
  cases hsave
  exact ⟨hwrite, rfl⟩

/-- The documents that were read can be read again. -/
theorem read_saved (hread : doc.file.read world.folder = .ok docs)
    (hwrite : doc.file.Writable world.folder) (hstorable : doc.value.Storable)
    (hdepth : doc.value.depth < CollectionFile.greatestDepth) :
    doc.file.read (doc.file.written world.folder (doc.saved docs)) =
      .ok (doc.saved docs) := by
  have hsaved : ∀ d ∈ doc.saved docs,
      d.Storable ∧ d.depth < CollectionFile.greatestDepth := by
    intro d hd
    rcases mem_saved hd with hd | rfl
    · exact CollectionFile.storable_of_read hread d hd
    · exact ⟨hstorable, hdepth⟩
  exact CollectionFile.read_written hwrite (fun d hd => (hsaved d hd).1)
    fun d hd => (hsaved d hd).2

/-! ## Writing back what was just given -/

/-- To write the document back is idle: what is read of the file stays the same.
If the file can be read and the document has an identifier it succeeds, and the
documents that are written are those that were read. -/
def SaveIdle (doc : Document) (world : World) : Prop :=
  doc.file.read (exec doc.save world).2.folder = doc.file.read world.folder ∧
    ∀ id docs, doc.id? = some id → doc.file.read world.folder = .ok docs →
      (exec doc.save world).1 = .ok () ∧
        exec doc.save world = exec (doc.file.save docs) world

theorem saveIdle_of_mem (h : ∀ docs, doc.file.read world.folder = .ok docs →
    docs.Pairwise (Value.Apart IdIndex.AnyText) ∧ doc.value ∈ docs) :
    doc.SaveIdle world := by
  rw [SaveIdle]
  cases hread : doc.file.read world.folder with
  | error e =>
      refine ⟨?_, nofun⟩
      rw [exec_save_of_read_error hread, hread]
  | ok docs =>
      obtain ⟨hapart, hmem⟩ := h docs hread
      cases hid : doc.id? with
      | none =>
          refine ⟨?_, nofun⟩
          rw [exec_save_of_no_id hid, hread]
      | some id =>
          have htext := Value.idText?_of_field? hid
          -- The directory is there, because a document is.
          have hfolder : world.folder ≠ none := by
            intro hnone
            rw [hnone] at hread
            cases hread
            cases hmem
          have hwrite := CollectionFile.writable_of_read hread (.inl hfolder)
          obtain ⟨hstorable, hdepth⟩ :=
            CollectionFile.storable_of_read hread doc.value hmem
          have hagain := read_saved hread hwrite hstorable hdepth
          have hsame := saved_of_mem hapart htext hmem
          rw [hsame] at hagain
          rw [exec_save hid hread, hsame]
          refine ⟨?_, fun _ listed _ hlisted =>
            ⟨CollectionFile.save_ok_iff.mpr hwrite, ?_⟩⟩
          · rw [CollectionFile.exec_save,
                CollectionFile.write_of_writable hwrite]
            exact hagain
          · rw [Except.ok.inj hlisted]

end Document

namespace Collection

variable {collection : Collection} {filter given : Value} {after : World}

theorem exec_findOne_eq_ok {found : Option Document}
    (h : exec (collection.findOne filter) world = (.ok found, after)) :
    after = world ∧ ∃ docs, collection.file.read world.folder = .ok docs ∧
      ∀ doc, found = some doc → doc.file = collection.file ∧
        doc.value ∈ docs := by
  obtain ⟨clause, start, hclause, h⟩ := exec_bind_eq_ok.mp h
  obtain ⟨-, rfl⟩ := Prod.mk.inj hclause
  obtain ⟨docs, loaded, hload, h⟩ := exec_bind_eq_ok.mp h
  obtain ⟨hread, rfl⟩ := Prod.mk.inj hload
  obtain ⟨first, searched, hsearch, h⟩ := exec_bind_eq_ok.mp h
  obtain ⟨hfirst, rfl⟩ := Prod.mk.inj hsearch
  cases h
  refine ⟨rfl, docs, hread, fun doc hdoc => ?_⟩
  obtain ⟨v, rfl, rfl⟩ := Option.map_eq_some_iff.mp hdoc
  exact ⟨rfl, firstMatch_mem hfirst⟩

theorem exec_create_eq_ok {doc : Document} (hgiven : given.WellFormed)
    (h : exec (collection.create given) world = (.ok doc, after)) :
    ∃ docs id, collection.file.read world.folder = .ok docs ∧
      doc.file = collection.file ∧
      doc.id? = some id ∧ doc.value.Storable ∧
      (∀ old ∈ docs, old.idText? ≠ some id.compact) ∧
      collection.file.Writable world.folder ∧
      after.folder = collection.file.written world.folder
        (docs ++ [doc.value]) := by
  obtain ⟨edited, start, hedit, h⟩ := exec_bind_eq_ok.mp h
  rw [exec_edit] at hedit
  cases hread : collection.file.read world.folder with
  | error e =>
      rw [hread] at hedit
      cases hedit
  | ok docs =>
      rw [hread] at hedit
      dsimp only at hedit
      rcases Write.insert_cases given (.ofDocs docs world.ids) with
        ⟨e, ids, hrun⟩ | ⟨id, made, ids, hrun, hnamed, hnew⟩
      · rw [hrun] at hedit
        cases hedit
        cases h
      · rw [hrun] at hedit
        cases hedit
        obtain ⟨key, inserted, hinsert, h⟩ := exec_bind_eq_ok.mp h
        cases hinsert
        obtain ⟨done, stored, hsave, h⟩ := exec_bind_eq_ok.mp h
        have hwrite := CollectionFile.save_ok_iff.mp (congrArg Prod.fst hsave)
        rw [CollectionFile.exec_save,
          CollectionFile.write_of_writable hwrite] at hsave
        cases hsave
        cases h
        have hlast : collection.bind ((docs ++ [made]).getLast?.getD .null) =
            collection.bind made := by
          rw [List.getLast?_append, List.getLast?_singleton, Option.some_or,
            Option.getD_some]
        have hfresh : (IdIndex.build docs).find? id = none := by
          rwa [Batch.ofDocs, IdIndex.contains, Option.isSome_eq_false_iff,
            Option.isNone_iff_eq_none] at hnew
        refine ⟨docs, id, rfl, rfl, ?_⟩
        rw [Batch.ofDocs, hlast]
        refine ⟨hnamed.field, hnamed.storable hgiven, fun old hold => ?_,
          hwrite, rfl⟩
        exact (IdIndex.exact_build IdIndex.AnyText docs).of_find?_eq_none
          trivial hfresh hold

theorem saveIdle_of_findOne {found : Document}
    (hread : collection.file.read world.folder = .ok docs)
    (hapart : docs.Pairwise (Value.Apart IdIndex.AnyText))
    (h : exec (collection.findOne filter) world = (.ok (some found), after)) :
    found.file = collection.file ∧ found.SaveIdle after := by
  obtain ⟨rfl, listed, hlisted, hfound⟩ := exec_findOne_eq_ok h
  obtain ⟨hfile, hmem⟩ := hfound found rfl
  cases hread.symm.trans hlisted
  refine ⟨hfile, Document.saveIdle_of_mem fun listed hlisted => ?_⟩
  rw [hfile] at hlisted
  cases hread.symm.trans hlisted
  exact ⟨hapart, hmem⟩

theorem saveIdle_of_create {made : Document}
    (hread : collection.file.read world.folder = .ok docs)
    (hapart : docs.Pairwise (Value.Apart IdIndex.AnyText))
    (hgiven : given.WellFormed)
    (h : exec (collection.create given) world = (.ok made, after)) :
    made.file = collection.file ∧ made.SaveIdle after := by
  obtain ⟨before, id, hbefore, hfile, hid, hstorable, hnew, hwrite, hafter⟩ :=
    exec_create_eq_ok hgiven h
  cases hread.symm.trans hbefore
  refine ⟨hfile, Document.saveIdle_of_mem fun listed hlisted => ?_⟩
  have hholds : made.file.Holds after.folder (docs ++ [made.value]) := by
    rw [hfile, hafter]
    exact .inl (CollectionFile.find_written hwrite _)
  have hall : ∀ d ∈ docs ++ [made.value], d.Storable := by
    intro d hd
    rcases List.mem_append.mp hd with hd | hd
    · exact (CollectionFile.storable_of_read hread d hd).1
    · rw [List.mem_singleton.mp hd]
      exact hstorable
  rw [hholds.eq_of_read hall hlisted]
  refine ⟨Value.apart_append hapart fun old hold text _ holdText hmadeText => ?_,
    List.mem_append_right _ List.mem_cons_self⟩
  have htext := Value.idText?_of_field? hid
  exact hnew old hold (holdText.trans (hmadeText.symm.trans htext))

end Collection

namespace Document

variable {collection : Collection}

/-- Where no two documents that are stored have the same text as their
identifiers, a document that is written back takes the place of the one with its
text, if there is one, and else goes last. The others stay where they are, and
no two have the same text then either. This succeeds if the file can be written.
To write back what a search or a creation just gave is idle. -/
theorem save_touches_one (hread : collection.file.read world.folder = .ok docs)
    (hapart : docs.Pairwise (Value.Apart IdIndex.AnyText)) :
    (∀ (doc : Document) (id : Value), doc.file = collection.file →
        doc.id? = some id →
      ((exec doc.save world).1 = .ok () ↔
        collection.file.Writable world.folder) ∧
      ∀ after, exec doc.save world = (.ok (), after) →
        ∃ kept, after = ⟨collection.file.written world.folder kept, world.ids⟩ ∧
          (doc.value.Storable → doc.value.depth < CollectionFile.greatestDepth →
            collection.file.read after.folder = .ok kept) ∧
          (∀ (place : Nat) (old : Value), docs[place]? = some old →
              old.idText? ≠ some id.compact →
            kept[place]? = some old) ∧
          (∀ (place : Nat) (old : Value), docs[place]? = some old →
              old.idText? = some id.compact →
            kept = docs.set place doc.value) ∧
          ((∀ old ∈ docs, old.idText? ≠ some id.compact) →
            kept = docs ++ [doc.value]) ∧
          kept.Pairwise (Value.Apart IdIndex.AnyText)) ∧
    (∀ filter found between, exec (collection.findOne filter) world =
        (.ok (some found), between) →
      found.file = collection.file ∧ found.SaveIdle between) ∧
    (∀ given made between, given.WellFormed →
      exec (collection.create given) world = (.ok made, between) →
      made.file = collection.file ∧ made.SaveIdle between) := by
  refine ⟨?_, fun filter found between =>
    Collection.saveIdle_of_findOne hread hapart,
    fun given made between => Collection.saveIdle_of_create hread hapart⟩
  intro doc id hfile hid
  have htext := Value.idText?_of_field? hid
  rw [← hfile] at hread ⊢
  refine ⟨by rw [exec_save hid hread, CollectionFile.save_ok_iff],
    fun after hsave => ?_⟩
  obtain ⟨hwrite, rfl⟩ := exec_save_eq_ok hid hread hsave
  refine ⟨doc.saved docs, rfl, read_saved hread hwrite,
    fun place old hget hne => ?_,
    fun place old hget hold => saved_of_place hapart htext hget hold,
    fun hnew => ?_,
    apart_saved hapart⟩
  · exact getElem?_saved hget (htext ▸ hne)
  · exact saved_of_new (htext ▸ hnew)

/-- One document is stored: another one is written back behind it, and it is
written back itself, as it was found; so is a new one. -/
theorem save_touches_one_oneStored :
    Session.people.file.read oneStored.folder = .ok [bare "a"] ∧
      [bare "a"].Pairwise (Value.Apart IdIndex.AnyText) ∧
      (∃ after, exec (Session.people.bind (bare "b")).save oneStored =
          (.ok (), after) ∧
        after.folder = Session.people.file.written oneStored.folder
          [bare "a", bare "b"]) ∧
      (∃ found between, exec (Session.people.findOne (bare "a")) oneStored =
        (.ok (some found), between) ∧ found.SaveIdle between) ∧
      ∃ made between, exec (Session.people.create (.object [])) oneStored =
        (.ok made, between) ∧
        made.SaveIdle between := by
  have hread : Session.people.file.read oneStored.folder = .ok [bare "a"] := by
    decide +kernel
  have hapart :=
    List.pairwise_singleton (Value.Apart IdIndex.AnyText) (bare "a")
  have hsave : (exec (Session.people.bind (bare "b")).save oneStored).1 =
      .ok () := by decide +kernel
  have hfind : (exec (Session.people.findOne (bare "a")) oneStored).1 =
      .ok (some (Session.people.bind (bare "a"))) := by
    decide +kernel
  have hcreate : (exec (Session.people.create (.object [])) oneStored).1 =
      .ok (Session.people.bind (bare "0")) := by
    decide +kernel
  obtain ⟨world, hworld⟩ : ∃ world, oneStored = world := ⟨_, rfl⟩
  rw [hworld] at hread hsave hfind hcreate ⊢
  obtain ⟨hsaved, hfound, hmade⟩ := save_touches_one hread hapart
  refine ⟨hread, hapart, ?_, ?_, ?_⟩
  · cases hrun : exec (Session.people.bind (bare "b")).save world with
    | mk outcome after =>
        rw [hrun] at hsave
        cases hsave
        obtain ⟨-, hkept⟩ :=
          hsaved (Session.people.bind (bare "b")) (.string "b") rfl rfl
        obtain ⟨kept, rfl, -, -, -, happend, -⟩ := hkept after hrun
        exact ⟨_, rfl, by rw [happend (by decide +kernel)]; rfl⟩
  · cases hrun : exec (Session.people.findOne (bare "a")) world with
    | mk outcome between =>
        rw [hrun] at hfind
        cases hfind
        exact ⟨_, between, rfl, (hfound _ _ _ hrun).2⟩
  · cases hrun : exec (Session.people.create (.object [])) world with
    | mk outcome between =>
        rw [hrun] at hcreate
        cases hcreate
        exact ⟨_, between, rfl,
          (hmade _ _ _ Value.wellFormed_emptyObject hrun).2⟩

end Document

end DocumentStore
