import DocumentStore.Proofs.Filter.Itself
import DocumentStore.Proofs.Session
import DocumentStore.Proofs.Update.Fields
import DocumentStore.Proofs.Write.Places

/-!
# Documents brought about are found again

An update that finds no document can bring one about, and that document should
be found by the filter from then on: otherwise the same update brings about one
more each time. The document starts from the scalars that the filter asks for.
It has them under the keys of the filter as they stand, while the filter reads
its keys as paths, so a key has to be a path of one segment for the two to be
the same field (`Path.get_of_isSingle`). What the update assigns does not show
at paths that diverge from it (`Update.get_applyFields_set`), and the identifier
that the document is given takes the place of null at most
(`Write.field?_ensureId`). Whatever else the filter asks for, a field that
passes these two conditions is `Lasting`.

A filter is fulfilled if its fields are fulfilled one by one
(`Filter.isMatch_of_fields`), and the index that is kept up is the one that
would be built anew (`IdIndex.build_append`), so it makes no difference whether
the update comes again in the same run of writes or later.
-/

namespace DocumentStore

namespace Filter

/-- A write does not act on a document that does not fulfil the filter. -/
theorem not_acts_of_not_isMatch {filter doc : Value}
    (h : isMatch filter doc ≠ .ok true) :
    acts filter doc = false := by
  rw [Bool.eq_false_iff]
  intro hacts
  exact h (of_decide_eq_true (selects_iff.mpr (.inl hacts)))

end Filter

/-! ## The document that is brought about -/

namespace Change

variable {filter : List (String × Value)} {key : String} {v : Value}

theorem field?_seed (hkeys : (Fields.keys filter).Nodup)
    (hmem : (key, v) ∈ filter) (hkey : Fields.isOperator key = false)
    (hscalar : v.isScalar = true) :
    (seed (.object filter)).field? key = some v := by
  have hkept : (key, v) ∈ filter.filter isSeed := by
    rw [Value.isScalar, Bool.not_eq_true', Bool.or_eq_false_iff] at hscalar
    refine List.mem_filter.mpr ⟨hmem, ?_⟩
    rw [isSeed, hkey, hscalar.1, hscalar.2]
    rfl
  exact (Fields.get?_eq_some_iff
    (Fields.nodup_keys_of_sublist List.filter_sublist hkeys)).mpr hkept

end Change

namespace Write

variable {docs : List Value} {doc made id v : Value} {key : String}
  {batch after : Batch}

/-- The identifier that a document is given takes the place of a missing one, or
of null. -/
theorem field?_ensureId
    (h : exec (ensureId doc) batch = (.ok (id, made), after))
    (hfield : doc.field? key = some v)
    (hproper : key = idKey → v.isNull = false) :
    made.field? key = some v := by
  cases doc with
  | object fields =>
      have hassign : exec (assignId fields) batch = (.ok (batch.ids.id,
          .object (Fields.insert idKey batch.ids.id fields)),
          { batch with ids := batch.ids.rest }) :=
        rfl
      have hother : key ≠ idKey →
          (Value.object (Fields.insert idKey batch.ids.id fields)).field? key =
            some v :=
        fun hne => (Fields.get?_insert_of_ne hne.symm).trans hfield
      rw [ensureId] at h
      cases hid : Fields.get? idKey fields with
      | none =>
          rw [hid] at h
          dsimp only at h
          rw [hassign] at h
          cases h
          refine hother ?_
          rintro rfl
          exact Option.some_ne_none v (hfield.symm.trans hid)
      | some old =>
          rw [hid] at h
          dsimp only at h
          split at h
          · next hnull =>
              rw [hassign] at h
              cases h
              refine hother ?_
              rintro rfl
              obtain rfl : v = old := Option.some.inj (hfield.symm.trans hid)
              exact Bool.noConfusion ((hproper rfl).symm.trans hnull)
          · cases h
            exact hfield
  | _ => cases h

/-- What is inserted has the fields of the document. -/
theorem exec_insert_eq_ok (h : exec (insert doc) batch = (.ok id, after)) :
    ∃ made, after.docs = batch.docs ++ [made] ∧
      after.index = batch.index.enter id batch.docs.length ∧
      made.field? idKey = some id ∧
      batch.index.contains id = false ∧
      ∀ key v, doc.field? key = some v → (key = idKey → v.isNull = false) →
        made.field? key = some v := by
  obtain ⟨docs, index, ids⟩ := batch
  rw [insert, exec_bind] at h
  rcases ensureId_cases doc ids with hrun | ⟨id', made, rest, hnamed, hrun⟩
  · rw [hrun] at h
    cases h
  · rw [hrun] at h
    dsimp only at h
    rw [exec_bind, exec_get] at h
    dsimp only at h
    cases hcontains : index.contains id' with
    | true =>
        rw [hcontains] at h
        cases h
    | false =>
        rw [hcontains] at h
        cases h
        exact ⟨made, rfl, rfl, hnamed.field, hcontains,
          fun key v hfield hproper =>
            field?_ensureId (hrun docs index) hfield hproper⟩

end Write

namespace IdIndex

theorem buildFrom_append {docs : List Value} {doc id : Value} (place : Nat)
    (hid : doc.field? idKey = some id) : buildFrom place (docs ++ [doc]) =
      buildFrom place docs ++ [(id.compact, place + docs.length)] := by
  induction docs generalizing place with
  | nil =>
      rw [List.nil_append, buildFrom, buildFrom, hid]
      rfl
  | cons first rest ih =>
      have hplace : place + 1 + rest.length =
          place + (first :: rest).length := by
        rw [List.length_cons]
        omega
      rw [List.cons_append, buildFrom, buildFrom, ih, hplace]
      cases first.field? idKey <;> rfl

/-- The index that is kept up while a document is added is the one that is built
anew. -/
theorem build_append {docs : List Value} {doc id : Value}
    (hid : doc.field? idKey = some id)
    (hnew : (build docs).contains id = false) :
    build (docs ++ [doc]) = (build docs).enter id docs.length := by
  rw [contains, find?, Option.isSome_eq_false_iff, Option.isNone_iff_eq_none,
    Fields.get?_eq_none_iff] at hnew
  rw [enter, Fields.insert_of_notMem hnew, build, buildFrom_append 0 hid,
    Nat.zero_add]
  rfl

end IdIndex

namespace Write

variable {now : Instant} {filter assigned : List (String × Value)}
  {docs : List Value}
  {doc id v : Value} {ids : IdSupply} {after : Batch} {outcome : Outcome}

/-- Assign fields of the first document that a filter finds, or bring one about
with them. -/
def assignOrInsert (now : Instant) (filter assigned : List (String × Value)) :
    Write Outcome :=
  update now (.object filter) (.update (Update.setting assigned)) false true

/-- A filter that asks for scalars at paths, and fields to assign whose paths
diverge from those. -/
structure Seeds (filter assigned : List (String × Value)) : Prop where
  wellFormed : (Value.object filter).WellFormed
  isPath : ∀ entry ∈ filter, Fields.isOperator entry.1 = false ∧
    ∃ p, Path.parse entry.1 = .ok p
  isScalar : ∀ entry ∈ filter, entry.2.isScalar = true
  diverge : ∀ entry ∈ filter, ∀ new ∈ assigned, ∀ p q,
    Path.parse new.1 = .ok p →
    Path.parse entry.1 = .ok q → Path.Diverge p.segments q.segments

/-- A field of a filter that a document can be brought about with: the key is a
path of one segment, and the identifier that it asks for is not null. -/
structure Lasting (entry : String × Value) : Prop where
  isSingle : Path.IsSingle entry.1
  proper : entry.1 = idKey → entry.2.isNull = false

/-- The fields of a filter are those of the document that an update brings
about. -/
theorem field?_upsertDocument (h : Seeds filter assigned)
    (hrun : (Change.update (Update.setting assigned)).upsertDocument now
      (.object filter) = .ok doc)
    {entry : String × Value} (hentry : entry ∈ filter)
    (hsingle : Path.IsSingle entry.1) :
    doc.field? entry.1 = some entry.2 := by
  obtain ⟨hkey, path, hpath⟩ := h.isPath entry hentry
  have hseed : (Change.seed (.object filter)).field? entry.1 = some entry.2 :=
    Change.field?_seed (Value.wellFormed_object_iff.mp h.wellFormed).1
      hentry hkey
      (h.isScalar entry hentry)
  have happly : Update.applyFields now .set assigned
      (Change.seed (.object filter)) = .ok doc := by
    rw [← Update.apply_setting rfl]
    exact hrun
  have hget := Update.get_applyFields_set
    (fun new hnew p hp => h.diverge entry hentry new hnew p path hp hpath) happly
    ((Path.get_of_isSingle hsingle hpath _).trans hseed)
  obtain ⟨fields, rfl⟩ :=
    Value.exists_fields_of_isObject (Update.isObject_applyFields_set happly rfl)
  rwa [Path.get_of_isSingle hsingle hpath] at hget

/-- Bringing about a document over the index built of the others. -/
theorem exec_bringAbout_eq_ok (h : Seeds filter assigned)
    (hrun : exec (bringAbout now (.object filter)
      (.update (Update.setting assigned)))
      (.ofDocs docs ids) = (.ok id, after)) :
    ∃ doc, after = .ofDocs (docs ++ [doc]) after.ids ∧ doc.isObject = true ∧
      ∀ entry ∈ filter, Lasting entry → doc.field? entry.1 = some entry.2 := by
  obtain ⟨doc, between, hdoc, hinsert⟩ := exec_bind_eq_ok.mp hrun
  rw [ofResult, exec_mk, Prod.mk.injEq] at hdoc
  obtain ⟨hdoc, rfl⟩ := hdoc
  obtain ⟨made, hdocs, hindex, hid, hnew, hkept⟩ := exec_insert_eq_ok hinsert
  refine ⟨made, ?_, ?_, ?_⟩
  · have hbuild : after.index = IdIndex.build (docs ++ [made]) :=
      hindex.trans (IdIndex.build_append hid hnew).symm
    obtain ⟨later, index, ids'⟩ := after
    cases hdocs
    cases hbuild
    rfl
  · cases made with
    | object fields => rfl
    | _ => cases hid
  · intro entry hentry hlasting
    exact hkept _ _ (field?_upsertDocument h hdoc hentry hlasting.isSingle)
      hlasting.proper

theorem isMatch_of_lasting (h : Seeds filter assigned)
    (hdoc : doc.isObject = true) {entry : String × Value}
    (hentry : entry ∈ filter) (hlasting : Lasting entry)
    (hfield : doc.field? entry.1 = some entry.2) :
    Filter.isMatch (.object [entry]) doc = .ok true := by
  obtain ⟨hkey, path, hpath⟩ := h.isPath entry hentry
  obtain ⟨fields, rfl⟩ := Value.exists_fields_of_isObject hdoc
  have hwf : entry.2.WellFormed :=
    (Value.wellFormed_object_iff.mp h.wellFormed).2 entry hentry
  refine Filter.isMatch_of_get hkey hpath hwf
    (Filter.holds_self_of_isScalar hwf (h.isScalar entry hentry)) ?_
  rw [Path.get_of_isSingle hlasting.isSingle hpath]
  exact hfield

theorem findIdx?_acts_eq_none
    (hnone : ∀ doc ∈ docs, Filter.isMatch (.object filter) doc ≠ .ok true) :
    docs.findIdx? (Filter.acts (.object filter)) = none :=
  List.findIdx?_eq_none_iff.mpr fun doc hdoc =>
    Filter.not_acts_of_not_isMatch (hnone doc hdoc)

/-- Where no document fulfils a filter, none is found for it. -/
theorem places_eq_nil {found : List Nat}
    (hnone : ∀ doc ∈ docs, Filter.isMatch (.object filter) doc ≠ .ok true)
    (hfound : places (.ofDocs docs ids) (.object filter) false = .ok found) :
    found = [] := by
  obtain ⟨clause, hclause, rfl⟩ := firstPlace_eq hfound
  cases hclause
  rw [findIdx?_acts_eq_none hnone]
  rfl

/-- A document that fulfils a filter and has its fields is found for it, behind
others that do not. -/
theorem places_eq_last {found : List Nat}
    (hnone : ∀ doc ∈ docs, Filter.isMatch (.object filter) doc ≠ .ok true)
    (hfields : ∀ entry ∈ filter, doc.field? entry.1 = some entry.2)
    (hmatch : Filter.isMatch (.object filter) doc = .ok true)
    (hfound : places (.ofDocs (docs ++ [doc]) ids) (.object filter) false =
      .ok found) :
    found = [docs.length] := by
  obtain ⟨clause, hclause, rfl⟩ := firstPlace_eq hfound
  cases hclause
  have hacts : Filter.acts (.object filter) doc = true := by
    refine (Filter.selects_iff.mp (decide_eq_true hmatch)).resolve_right ?_
    rintro ⟨s, hfilter, items, hitems, -⟩
    cases hfilter
    rw [hfields _ List.mem_cons_self] at hitems
    cases hitems
  rw [List.findIdx?_append, findIdx?_acts_eq_none hnone,
    List.findIdx?_singleton, hacts]
  simp

/-- A change of the last document leaves the others. -/
theorem exec_change_last (now : Instant) (c : Change) {batch : Batch}
    (hdocs : batch.docs = docs ++ [doc]) :
    ∃ changed, (exec (change now c [docs.length]) batch).2.docs =
      docs ++ [changed] := by
  have hlast : batch.docs[docs.length]? = some doc := by
    rw [hdocs, List.getElem?_append_right (Nat.le_refl _), Nat.sub_self]
    rfl
  rw [change_cons, hlast]
  dsimp only
  cases c.apply now doc with
  | error e => exact ⟨doc, hdocs⟩
  | ok changed =>
      dsimp only
      split
      · exact ⟨doc, hdocs⟩
      · refine ⟨changed, ?_⟩
        show batch.docs.set docs.length changed = _
        rw [hdocs, List.set_append_right _ _ (Nat.le_refl _), Nat.sub_self]
        rfl

/-- Updating again changes the document at most. -/
theorem exec_assignOrInsert_last {result : Result Outcome} {batch : Batch}
    (hnone : ∀ doc ∈ docs, Filter.isMatch (.object filter) doc ≠ .ok true)
    (hfields : ∀ entry ∈ filter, doc.field? entry.1 = some entry.2)
    (hmatch : Filter.isMatch (.object filter) doc = .ok true)
    (hrun : exec (assignOrInsert now filter assigned)
      (.ofDocs (docs ++ [doc]) ids) =
      (result, batch)) :
    (∃ changed, batch.docs = docs ++ [changed]) ∧
      ∀ again, result = .ok again → again.matched = 1 ∧
        again.upsertedId = none := by
  rw [assignOrInsert, exec_update] at hrun
  cases hplaces : places (.ofDocs (docs ++ [doc]) ids)
    (.object filter) false with
  | error e =>
      rw [hplaces] at hrun
      cases hrun
      exact ⟨⟨doc, rfl⟩, nofun⟩
  | ok found =>
      obtain rfl := places_eq_last hnone hfields hmatch hplaces
      have hdocs : (Batch.ofDocs (docs ++ [doc]) ids).docs =
          docs ++ [doc] := rfl
      obtain ⟨changed, hchanged⟩ :=
        exec_change_last now (.update (Update.setting assigned)) hdocs
      rw [hplaces] at hrun
      dsimp only at hrun
      split at hrun
      · next e after hexec =>
          rw [hexec] at hchanged
          cases hrun
          exact ⟨⟨changed, hchanged⟩, nofun⟩
      · next modified after hexec =>
          rw [hexec] at hchanged
          cases hrun
          refine ⟨⟨changed, hchanged⟩, ?_⟩
          rintro again heq
          cases heq
          exact ⟨rfl, rfl⟩

/-- An update that finds no document and succeeds brings one about. Each field
of the filter that lasts is fulfilled by it; if all of them do, it fulfils the
filter, and then the same update changes it and adds none, at any time and
whatever the new identifiers are. -/
theorem found_again (h : Seeds filter assigned)
    (hnone : ∀ doc ∈ docs, Filter.isMatch (.object filter) doc ≠ .ok true)
    (hrun : exec (assignOrInsert now filter assigned) (.ofDocs docs ids) =
      (.ok outcome, after)) :
    ∃ doc id, outcome = ⟨0, 0, some id⟩ ∧
      after = .ofDocs (docs ++ [doc]) after.ids ∧
      (∀ entry ∈ filter, Lasting entry →
        Filter.isMatch (.object [entry]) doc = .ok true) ∧
      ((∀ entry ∈ filter, Lasting entry) →
          Filter.isMatch (.object filter) doc = .ok true ∧
        ∀ (later : Instant) (ids' : IdSupply) (result : Result Outcome)
          (batch : Batch),
          exec (assignOrInsert later filter assigned)
            (.ofDocs (docs ++ [doc]) ids') =
            (result, batch) →
          (∃ changed, batch.docs = docs ++ [changed]) ∧
            ∀ again, result = .ok again → again.matched = 1 ∧
              again.upsertedId = none) := by
  rw [assignOrInsert, exec_update] at hrun
  cases hplaces : places (.ofDocs docs ids) (.object filter) false with
  | error e =>
      rw [hplaces] at hrun
      cases hrun
  | ok found =>
      obtain rfl := places_eq_nil hnone hplaces
      rw [hplaces] at hrun
      obtain ⟨id, between, hbring, heq⟩ := exec_bind_eq_ok.mp hrun
      cases heq
      obtain ⟨doc, hafter, hobject, hfields⟩ := exec_bringAbout_eq_ok h hbring
      have hsingle : ∀ entry ∈ filter, Lasting entry →
          Filter.isMatch (.object [entry]) doc = .ok true :=
        fun entry hentry hlasting =>
          isMatch_of_lasting h hobject hentry hlasting
            (hfields entry hentry hlasting)
      refine ⟨doc, id, rfl, hafter, hsingle, ?_⟩
      intro hall
      have hmatch : Filter.isMatch (.object filter) doc = .ok true :=
        Filter.isMatch_of_fields (fun entry hentry => (h.isPath entry hentry).1)
          fun entry hentry => hsingle entry hentry (hall entry hentry)
      refine ⟨hmatch, ?_⟩
      intro later ids' result batch hagain
      exact exec_assignOrInsert_last hnone
        (fun entry hentry => hfields entry hentry (hall entry hentry))
          hmatch hagain

theorem Seeds.single {key new : String} {w : Value} {p q : Path}
    (hkey : Fields.isOperator key = false) (hq : Path.parse key = .ok q)
    (hv : v.WellFormed) (hscalar : v.isScalar = true)
    (hp : Path.parse new = .ok p)
    (hdiverge : Path.Diverge p.segments q.segments) :
    Seeds [(key, v)] [(new, w)] := by
  refine ⟨⟨List.nodup_singleton _, hv, trivial⟩, ?_, ?_, ?_⟩
  · exact List.forall_mem_singleton.mpr ⟨hkey, q, hq⟩
  · exact List.forall_mem_singleton.mpr hscalar
  · refine List.forall_mem_singleton.mpr (List.forall_mem_singleton.mpr ?_)
    intro p' q' hp' hq'
    rw [hp, Except.ok.injEq] at hp'
    rw [hq, Except.ok.injEq] at hq'
    rwa [← hp', ← hq']

/-- A field of any document that is brought about here. -/
def visited : List (String × Value) := [("visits", .ofInt 1)]

theorem parse_visits :
    Path.parse "visits" = .ok ⟨[.key "visits"], by simp⟩ := by decide +kernel

/-- The documents after the first update of none. -/
def afterOne (filter : List (String × Value)) : Batch :=
  (exec (assignOrInsert Session.epoch filter visited)
    (.ofDocs [] Session.nowhere.ids)).2

/-- The document that is brought about does not fulfil the filter, and the same
update brings about one more. -/
structure Repeats (filter : List (String × Value)) : Prop where
  seeds : Seeds filter visited
  outcome : (exec (assignOrInsert Session.epoch filter visited)
    (.ofDocs [] Session.nowhere.ids)).1 = .ok ⟨0, 0, some (.string "0")⟩
  unfulfilled : ∀ doc ∈ (afterOne filter).docs,
    Filter.isMatch (.object filter) doc = .ok false
  again :
    (exec (assignOrInsert Session.epoch filter visited) (afterOne filter)).1 =
    .ok ⟨0, 0, some (.string "1")⟩

/-- An identifier that is asked to be null, and keys that are paths of two
segments. -/
theorem found_again_part :
    Repeats [(idKey, .null)] ∧ Repeats [("a.b", .ofInt 1)] ∧
      Repeats [("a[0]", .ofInt 1)] := by
  have hpath : Path.parse "a.b" = .ok ⟨[.key "a", .key "b"], by simp⟩ := by
    decide +kernel
  have hpath' : Path.parse "a[0]" = .ok ⟨[.key "a", .index 0], by simp⟩ := by
    decide +kernel
  have hnull : Repeats [(idKey, .null)] :=
    ⟨.single (by decide +kernel) Filter.parse_idKey trivial rfl parse_visits
      (Path.diverge_cons_iff.mpr (.inl (by decide))), by decide +kernel, by
        decide +kernel,
      by decide +kernel⟩
  have hdotted : Repeats [("a.b", .ofInt 1)] :=
    ⟨.single (by decide +kernel) hpath trivial rfl parse_visits
      (Path.diverge_cons_iff.mpr (.inl (by decide))), by decide +kernel, by
        decide +kernel,
      by decide +kernel⟩
  have hindexed : Repeats [("a[0]", .ofInt 1)] :=
    ⟨.single (by decide +kernel) hpath' trivial rfl parse_visits
      (Path.diverge_cons_iff.mpr (.inl (by decide))), by decide +kernel, by
        decide +kernel,
      by decide +kernel⟩
  exact ⟨hnull, hdotted, hindexed⟩

/-- Someone is looked up by name and not found among others. -/
theorem found_again_visitor :
    Seeds [("name", .string "a")] visited ∧
      (∀ doc ∈ [Filter.ofId "x"],
        Filter.isMatch (.object [("name", .string "a")]) doc ≠ .ok true) ∧
      ∃ doc,
        (exec (assignOrInsert Session.epoch [("name", .string "a")] visited)
          (.ofDocs [Filter.ofId "x"] Session.nowhere.ids)).2.docs =
          [Filter.ofId "x", doc] ∧
        Filter.isMatch (.object [("name", .string "a")]) doc = .ok true ∧
        ∀ later ids result batch,
          exec (assignOrInsert later [("name", .string "a")] visited)
            (.ofDocs [Filter.ofId "x", doc] ids) = (result, batch) →
          ∃ changed, batch.docs = [Filter.ofId "x", changed] := by
  have hseeds : Seeds [("name", .string "a")] visited :=
    .single (q := ⟨[.key "name"], by simp⟩) (by decide +kernel)
      (by decide +kernel) trivial rfl
      parse_visits (Path.diverge_cons_iff.mpr (.inl (by decide)))
  have hnone : ∀ doc ∈ [Filter.ofId "x"],
      Filter.isMatch (.object [("name", .string "a")]) doc ≠ .ok true := by
    decide +kernel
  have hlasting : ∀ entry ∈ [("name", Value.string "a")], Lasting entry :=
    List.forall_mem_singleton.mpr ⟨⟨by decide, by decide⟩, fun _ => rfl⟩
  refine ⟨hseeds, hnone, ?_⟩
  cases hrun : exec (assignOrInsert Session.epoch
      [("name", .string "a")] visited)
      (.ofDocs [Filter.ofId "x"] Session.nowhere.ids) with
  | mk outcome after =>
      have houtcome : outcome = .ok ⟨0, 0, some (.string "0")⟩ := by
        refine (congrArg Prod.fst hrun).symm.trans ?_
        decide +kernel
      rw [houtcome] at hrun
      obtain ⟨doc, id, -, hafter, -, hall⟩ := found_again hseeds hnone hrun
      obtain ⟨hmatch, hagain⟩ := hall hlasting
      refine ⟨doc, by rw [hafter]; rfl, hmatch, ?_⟩
      intro later ids result batch h
      exact (hagain later ids result batch h).1

end Write

end DocumentStore
