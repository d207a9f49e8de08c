import DocumentStore.Proofs.Atomicity
import DocumentStore.Proofs.Collection.Commit

/-!
# Many insertions in one

Inserting many documents keeps one index up for all of them, and single
insertions build the index anew each time. That makes no difference, because an
index that is entered into stays exact: it says of every identifier what the
index built of the documents so far would say. So the documents are inserted, or
one of them is refused, alike.

In between, single insertions write the file and read it back, which succeeds
unless the document that was inserted is too deep for the file. So inserting
many documents comes to inserting them one after another, and if one is refused
none is stored, except where a document that is too deep is inserted with
another one to follow. Then and only then, if the file can be read and written
at all, `AllOrNothing` fails. If it cannot be read, every insertion fails where
it reads. So does inserting no documents at once, and inserting none of them one
after another does not.
-/

namespace DocumentStore

variable {docs : List Value} {index index' : IdIndex} {doc : Value}
  {batch batch' : Batch}

namespace Write

/-- Insert a document with the index built anew, as a single insertion does. -/
def insertAfresh (doc : Value) : Write Value := do
  let batch ← get
  set (Batch.ofDocs batch.docs batch.ids)
  insert doc

theorem exec_insertAfresh (doc : Value) (batch : Batch) :
    exec (insertAfresh doc) batch =
      exec (insert doc) (.ofDocs batch.docs batch.ids) := rfl

/-- The same outcome, and batches that differ in the index at most. -/
structure Concur (a b : Result α × Batch) : Prop where
  outcome : a.1 = b.1
  docs : a.2.docs = b.2.docs
  ids : a.2.ids = b.2.ids

theorem Concur.bind {m m' : Write α} {k k' : α → Write β}
    (h : Concur (exec m batch) (exec m' batch'))
    (hk : ∀ a left left', exec m batch = (.ok a, left) →
      exec m' batch' = (.ok a, left') →
      Concur (exec (k a) left) (exec (k' a) left')) :
    Concur (exec (m >>= k) batch) (exec (m' >>= k') batch') := by
  obtain ⟨houtcome, hdocs, hids⟩ := h
  rw [exec_bind, exec_bind]
  cases hrun : exec m batch with
  | mk outcome left =>
      cases hrun' : exec m' batch' with
      | mk outcome' left' =>
          rw [hrun, hrun'] at houtcome hdocs hids
          cases houtcome
          cases outcome with
          | error e => exact ⟨rfl, hdocs, hids⟩
          | ok a => exact hk a left left' hrun hrun'

/-- Indices that are exact agree on which identifiers are new. -/
theorem contains_eq (h : IdIndex.Exact IdIndex.AnyText index docs)
    (h' : IdIndex.Exact IdIndex.AnyText index' docs) (id : Value) :
    index.contains id = index'.contains id := by
  rw [IdIndex.contains, IdIndex.contains, IdIndex.find?, IdIndex.find?,
    h _ trivial, h' _ trivial]

theorem insert_concurs
    (h : IdIndex.Exact IdIndex.AnyText batch.index batch.docs)
    (hdocs : batch.docs = batch'.docs) (hids : batch.ids = batch'.ids)
    (doc : Value) :
    Concur (exec (insert doc) batch) (exec (insertAfresh doc) batch') ∧
      IdIndex.Exact IdIndex.AnyText (exec (insert doc) batch).2.index
        (exec (insert doc) batch).2.docs := by
  have hbuilt : IdIndex.Exact IdIndex.AnyText
      (IdIndex.build batch.docs) batch.docs :=
    IdIndex.exact_build _ batch.docs
  rw [exec_insertAfresh, ← hdocs, ← hids, Batch.ofDocs]
  obtain ⟨docs, index, ids⟩ := batch
  rcases insert_spec doc ids with hrun | ⟨id, made, rest, hnamed, hrun⟩
  · rw [hrun, hrun]
    exact ⟨⟨rfl, rfl, rfl⟩, h⟩
  · rw [hrun, hrun, contains_eq hbuilt h id]
    cases hcontains : index.contains id with
    | true => exact ⟨⟨rfl, rfl, rfl⟩, h⟩
    | false => exact ⟨⟨rfl, rfl, rfl⟩, h.enter hnamed.field fun _ => hcontains⟩

theorem insertAll_concurs
    (h : IdIndex.Exact IdIndex.AnyText batch.index batch.docs)
    (hdocs : batch.docs = batch'.docs) (hids : batch.ids = batch'.ids)
    (new : List Value) :
    Concur (exec (new.mapM insert) batch)
      (exec (new.mapM insertAfresh) batch') := by
  induction new generalizing batch batch' with
  | nil => exact ⟨rfl, hdocs, hids⟩
  | cons doc rest ih =>
      obtain ⟨hfirst, hexact⟩ := insert_concurs h hdocs hids doc
      rw [List.mapM_cons, List.mapM_cons]
      refine hfirst.bind fun id left left' hrun hrun' => ?_
      -- One index stays exact, and the other one is built anew before it is
      -- asked.
      rw [hrun] at hexact
      rw [hrun, hrun'] at hfirst
      have hrest := ih hexact hfirst.docs hfirst.ids
      refine hrest.bind fun more last last' hmore hmore' => ?_
      rw [hmore, hmore'] at hrest
      exact ⟨rfl, hrest.docs, hrest.ids⟩

end Write

namespace Collection

open Write CollectionFile

variable {collection : Collection} {world : World}

/-- What an operation comes to does not depend on the index that a run
leaves. -/
theorem Commits.of_concur {m : Store β} {w w' : Write α} {write : α → Bool}
    {give : α → β} (h : Commits collection m w write give)
    (hconcur : ∀ docs ids,
      Concur (exec w (.ofDocs docs ids)) (exec w' (.ofDocs docs ids))) :
    Commits collection m w' write give := by
  intro world docs hread hwrite
  have hsettled : ∀ {left left' : Batch} (write : Bool),
      left.docs = left'.docs →
      left.ids = left'.ids →
        collection.settled world write left =
          collection.settled world write left' := by
    intro left left' write hdocs hids
    rw [settled, settled, hdocs, hids]
  obtain ⟨houtcome, hdocs, hids⟩ := hconcur docs world.ids
  rw [h world docs hread hwrite]
  cases hrun : exec w (.ofDocs docs world.ids) with
  | mk outcome left =>
      cases hrun' : exec w' (.ofDocs docs world.ids) with
      | mk outcome' left' =>
          rw [hrun, hrun'] at houtcome hdocs hids
          cases houtcome
          cases outcome with
          | error e => exact congrArg (Prod.mk _) (hsettled false hdocs hids)
          | ok a => exact congrArg (Prod.mk _) (hsettled (write a) hdocs hids)

theorem commits_insertAll (collection : Collection) (new : List Value) :
    Commits collection (collection.insertMany new) (new.mapM insertAfresh)
      (fun _ => true) id :=
  (commits_insertMany collection new).of_concur fun docs _ =>
    insertAll_concurs (IdIndex.exact_build IdIndex.AnyText docs) rfl rfl new

/-! ## Reading back what was inserted -/

theorem exec_insertOne_of_read_error {e : Error}
    (hread : collection.file.read world.folder = .error e) (doc : Value) :
    exec (collection.insertOne doc) world = (.error e, world) := by
  rw [insertOne, exec_bind, exec_edit, hread]

theorem exec_insertMany_of_read_error {e : Error}
    (hread : collection.file.read world.folder = .error e) (new : List Value) :
    exec (collection.insertMany new) world = (.error e, world) := by
  rw [insertMany, exec_bind, exec_edit, hread]

/-- An insertion that succeeds has read the file and written it. -/
theorem exec_insertOne_eq_ok {id : Value} {after : World}
    (h : exec (collection.insertOne doc) world = (.ok id, after)) :
    ∃ docs left, collection.file.read world.folder = .ok docs ∧
      collection.file.Writable world.folder ∧
      exec (insert doc) (.ofDocs docs world.ids) = (.ok id, left) ∧
      after = collection.settled world true left := by
  obtain ⟨edited, start, hedit, h⟩ := exec_bind_eq_ok.mp h
  rw [exec_edit] at hedit
  cases hread : collection.file.read world.folder with
  | error e =>
      rw [hread] at hedit
      cases hedit
  | ok docs =>
      rw [hread] at hedit
      cases hedit
      dsimp only at h
      cases hrun : exec (insert doc) (.ofDocs docs world.ids) with
      | mk outcome left =>
          rw [hrun] at h
          obtain ⟨given, mid, hgiven, h⟩ := exec_bind_eq_ok.mp h
          cases hgiven
          obtain ⟨done, stored, hsave, h⟩ := exec_bind_eq_ok.mp h
          have hwrite := save_ok_iff.mp (congrArg Prod.fst hsave)
          rw [exec_save, write_of_writable hwrite] at hsave
          cases hsave
          cases h
          exact ⟨docs, left, rfl, hwrite, hrun, rfl⟩

/-- What an insertion leaves is read back unless the document is too deep. -/
theorem read_inserted {left : Batch} {id : Value} {ids : IdSupply}
    (hread : collection.file.read world.folder = .ok docs)
    (hwrite : collection.file.Writable world.folder) (hdoc : doc.WellFormed)
    (hrun : exec (insert doc) (.ofDocs docs ids) = (.ok id, left)) :
    collection.file.read (collection.file.written world.folder left.docs) =
      if doc.depth < greatestDepth then .ok left.docs
      else .error .serialization := by
  rcases insert_cases doc (.ofDocs docs ids) with
    ⟨e, rest, hcase⟩ | ⟨given, made, rest, hcase, hnamed, -⟩
  · rw [hrun] at hcase
    cases hcase
  · rw [hrun] at hcase
    cases hcase
    have hstored := storable_of_read hread
    have hstorable : ∀ d ∈ docs ++ [made], d.Storable := by
      intro d hd
      rcases List.mem_append.mp hd with hd | hd
      · exact (hstored d hd).1
      · rw [List.mem_singleton.mp hd]
        exact hnamed.storable hdoc
    -- The documents before it were read, so only the new one can be too deep.
    have hdepth : (Value.array (docs ++ [made])).depth ≤ greatestDepth ↔
        doc.depth < greatestDepth := by
      rw [depth_le_iff, ← hnamed.depth_eq]
      refine ⟨fun h => h made (by simp), fun h d hd => ?_⟩
      rcases List.mem_append.mp hd with hd | hd
      · exact (hstored d hd).2
      · rwa [List.mem_singleton.mp hd]
    exact (read_written_eq hwrite hstorable).trans (if_congr hdepth rfl rfl)

/-- After a document that is too deep no other one is inserted. -/
theorem insertOne_after_tooDeep {id : Value} {after : World}
    (hdoc : doc.WellFormed) (hdepth : greatestDepth ≤ doc.depth)
    (h : exec (collection.insertOne doc) world = (.ok id, after))
    (next : Value) :
    exec (collection.insertOne next) after =
      (.error .serialization, after) := by
  obtain ⟨docs, left, hread, hwrite, hrun, rfl⟩ := exec_insertOne_eq_ok h
  have hback : collection.file.read
      (collection.settled world true left).folder =
      .error .serialization :=
    (read_inserted hread hwrite hdoc hrun).trans
      (if_neg (Nat.not_lt.mpr hdepth))
  exact exec_insertOne_of_read_error hback next

/-! ## One after another -/

/-- Inserted one after another, the documents get as far as one that is too deep
for the file to be read back, and it is not the last one. -/
def Blocked (collection : Collection) (world : World)
    (new : List Value) : Prop :=
  ∃ before doc next rest given after, new = before ++ doc :: next :: rest ∧
    greatestDepth ≤ doc.depth ∧
    exec ((before ++ [doc]).mapM collection.insertOne) world =
      (.ok given, after)

theorem not_blocked_of_depth {new : List Value}
    (h : ∀ doc ∈ new, doc.depth < greatestDepth) :
    ¬ Blocked collection world new := by
  rintro ⟨before, doc, next, rest, given, after, rfl, hdepth, -⟩
  exact Nat.not_lt.mpr hdepth (h doc (by simp))

theorem Blocked.head {id next : Value} {rest : List Value} {after : World}
    (hdepth : greatestDepth ≤ doc.depth)
    (h : exec (collection.insertOne doc) world = (.ok id, after)) :
    Blocked collection world (doc :: next :: rest) :=
  ⟨[], doc, next, rest, [id], after, rfl, hdepth,
    exec_bind_eq_ok.mpr ⟨id, after, h, rfl⟩⟩

theorem Blocked.cons {id : Value} {rest : List Value} {after : World}
    (h : Blocked collection after rest)
    (hfirst : exec (collection.insertOne doc) world = (.ok id, after)) :
    Blocked collection world (doc :: rest) := by
  obtain ⟨before, deep, next, more, given, last, rfl, hdepth, hrun⟩ := h
  refine ⟨doc :: before, deep, next, more, id :: given, last, rfl, hdepth, ?_⟩
  rw [List.cons_append, List.mapM_cons]
  exact exec_bind_eq_ok.mpr ⟨id, after, hfirst,
    exec_bind_eq_ok.mpr ⟨given, last, hrun, rfl⟩⟩

theorem Blocked.fails {new : List Value} (h : Blocked collection world new)
    (hnew : ∀ doc ∈ new, doc.WellFormed) :
    (exec (new.mapM collection.insertOne) world).1 = .error .serialization := by
  obtain ⟨before, doc, next, rest, given, after, rfl, hdepth, hrun⟩ := h
  have hnext : exec (collection.insertOne next) after =
      (.error .serialization, after) := by
    rw [List.mapM_append] at hrun
    obtain ⟨ids, mid, -, hrun⟩ := exec_bind_eq_ok.mp hrun
    obtain ⟨others, last, hone, hlast⟩ := exec_bind_eq_ok.mp hrun
    cases hlast
    obtain ⟨id, last, hdoc, hpure⟩ := exec_bind_eq_ok.mp hone
    cases hpure
    exact insertOne_after_tooDeep (hnew doc (by simp)) hdepth hdoc next
  rw [← List.singleton_append, ← List.append_assoc, List.mapM_append,
    exec_bind, hrun]
  dsimp only
  rw [List.mapM_cons, exec_bind, exec_bind, hnext]

/-- What was done in the store has the outcome of a run in memory, and if it
succeeded the file lists the documents of the run. -/
def GoesAs (collection : Collection) (done : Result α × World)
    (run : Result α × Batch) : Prop :=
  match run with
  | (.ok a, left) => ∃ after, done = (.ok a, after) ∧
      collection.file.Lists after.folder left.docs ∧ after.ids = left.ids
  | (.error e, _) => ∃ after, done = (.error e, after)

theorem GoesAs.cons {m : Store (List Value)} {w : Write (List Value)}
    (h : GoesAs collection (exec m world) (exec w batch)) (id : Value) :
    GoesAs collection (exec (m >>= fun ids => pure (id :: ids)) world)
      (exec (w >>= fun ids => pure (id :: ids)) batch) := by
  rw [exec_bind, exec_bind]
  cases hrun : exec w batch with
  | mk outcome left =>
      rw [hrun] at h
      cases outcome with
      | error e =>
          obtain ⟨after, hafter⟩ := h
          rw [hafter]
          exact ⟨after, rfl⟩
      | ok ids =>
          obtain ⟨after, hafter, hlists⟩ := h
          rw [hafter]
          exact ⟨after, rfl, hlists⟩

/-- Insertions one after another go as the run in memory as long as the file
that each of them writes is read back by the next. -/
theorem insertOnes_goAs {new : List Value}
    (hread : collection.file.read world.folder = .ok batch.docs)
    (hids : world.ids = batch.ids)
    (hwrite : collection.file.Writable world.folder)
    (hnew : ∀ doc ∈ new, doc.WellFormed)
    (hopen : ¬ Blocked collection world new) :
    GoesAs collection (exec (new.mapM collection.insertOne) world)
      (exec (new.mapM insertAfresh) batch) := by
  induction new generalizing batch world with
  | nil => exact ⟨world, rfl, .inr hread, hids⟩
  | cons doc rest ih =>
      have hone :=
        commits_insertOne collection doc world batch.docs hread hwrite
      rw [List.mapM_cons, List.mapM_cons, exec_bind, exec_bind,
        exec_insertAfresh, ← hids]
      cases hrun : exec (insert doc) (.ofDocs batch.docs world.ids) with
      | mk outcome left =>
          rw [hrun] at hone
          cases outcome with
          | error e =>
              rw [hone]
              exact ⟨_, rfl⟩
          | ok id =>
              have hfirst : exec (collection.insertOne doc) world =
                  (.ok id, collection.settled world true left) := hone
              rw [hfirst]
              cases rest with
              | nil => exact ⟨_, rfl, lists_written hwrite left.docs, rfl⟩
              | cons next more =>
                  -- Another insertion follows, so the file must be read back.
                  have hdepth : doc.depth < greatestDepth :=
                    Nat.not_le.mp fun hdeep => hopen (.head hdeep hfirst)
                  have hback : collection.file.read
                      (collection.settled world true left).folder =
                      .ok left.docs :=
                    (read_inserted hread hwrite
                        (hnew doc List.mem_cons_self) hrun).trans
                      (if_pos hdepth)
                  have hmore := ih hback rfl (writable_written hwrite left.docs)
                    (fun d hd => hnew d (List.mem_cons_of_mem _ hd))
                    fun hblocked => hopen (hblocked.cons hfirst)
                  exact hmore.cons id

/-! ## All or nothing -/

/-- If the single insertions all succeed, the insertion of many gives the same
identifiers and stores the same documents. Otherwise it fails with the error of
the first one that fails, and stores nothing. -/
def AllOrNothing (collection : Collection) (world : World)
    (new : List Value) : Prop :=
  match exec (new.mapM collection.insertOne) world with
  | (.ok given, after) =>
      ∃ all left, exec (collection.insertMany new) world = (.ok given, all) ∧
        collection.file.Lists all.folder left ∧
        collection.file.Lists after.folder left ∧
        all.ids = after.ids
  | (.error e, _) =>
      ∃ all, exec (collection.insertMany new) world = (.error e, all) ∧
        all.folder = world.folder

theorem AllOrNothing.outcome_eq {new : List Value}
    (h : AllOrNothing collection world new) :
    (exec (collection.insertMany new) world).1 =
      (exec (new.mapM collection.insertOne) world).1 := by
  rw [AllOrNothing] at h
  cases hrun : exec (new.mapM collection.insertOne) world with
  | mk outcome after =>
      rw [hrun] at h
      cases outcome with
      | ok given =>
          obtain ⟨all, left, hmany, -⟩ := h
          rw [hmany]
      | error e =>
          obtain ⟨all, hmany, -⟩ := h
          rw [hmany]

/-- In a file that cannot be read both fail in the same way, if there is a
document to insert. -/
theorem allOrNothing_of_read_error {e : Error}
    (hread : collection.file.read world.folder = .error e) (new : List Value) :
    AllOrNothing collection world new ↔ new ≠ [] := by
  have hmany := exec_insertMany_of_read_error hread new
  cases new with
  | nil =>
      refine ⟨fun h => ?_, fun h => absurd rfl h⟩
      have houtcome : (exec (collection.insertMany []) world).1 = .ok [] :=
        h.outcome_eq
      rw [hmany] at houtcome
      cases houtcome
  | cons doc rest =>
      refine ⟨fun _ => List.cons_ne_nil doc rest, fun _ => ?_⟩
      rw [AllOrNothing, List.mapM_cons, exec_bind,
        exec_insertOne_of_read_error hread]
      exact ⟨world, hmany, rfl⟩

/-- Inserting many documents reads the file once, before any of them is in
it. -/
theorem insertMany_ne_serialization {new : List Value}
    (hread : collection.file.read world.folder = .ok docs)
    (hwrite : collection.file.Writable world.folder) :
    (exec (collection.insertMany new) world).1 ≠ .error .serialization := by
  rw [commits_insertMany collection new world docs hread hwrite]
  cases hrun : exec (new.mapM insert) (.ofDocs docs world.ids) with
  | mk outcome left =>
      cases outcome with
      | ok given =>
          intro h
          cases h
      | error e =>
          intro h
          cases h
          rcases error_of_insertAll hrun with h | ⟨id, h⟩
          · cases h
          · cases h

theorem allOrNothing_iff {new : List Value}
    (hread : collection.file.read world.folder = .ok docs)
    (hwrite : collection.file.Writable world.folder)
    (hnew : ∀ doc ∈ new, doc.WellFormed) :
    AllOrNothing collection world new ↔ ¬ Blocked collection world new := by
  constructor
  · intro hall hblocked
    exact insertMany_ne_serialization hread hwrite
      (hall.outcome_eq.trans (hblocked.fails hnew))
  · intro hopen
    have hmany := commits_insertAll collection new world docs hread hwrite
    have hstart : collection.file.read world.folder =
        .ok (Batch.ofDocs docs world.ids).docs :=
      hread
    have hone := insertOnes_goAs hstart rfl hwrite hnew hopen
    rw [AllOrNothing, hmany]
    cases hrun : exec (new.mapM insertAfresh) (.ofDocs docs world.ids) with
    | mk outcome left =>
        rw [hrun] at hone
        cases outcome with
        | error e =>
            obtain ⟨after, hafter⟩ := hone
            rw [hafter]
            exact ⟨_, rfl, rfl⟩
        | ok given =>
            obtain ⟨after, hafter, hlists, hids⟩ := hone
            rw [hafter]
            exact ⟨_, left.docs, rfl, lists_written hwrite left.docs,
              hlists, hids.symm⟩

/-- An insertion of many documents is decided as single insertions one after
another are, whatever the documents and their identifiers, unless a document
that is too deep for the file is inserted before another one. Then the single
insertions fail where they read the file again, which the insertion of many does
not do. In a file that cannot be read they fail alike if there is a document to
insert. -/
theorem insertMany_all_or_nothing {new : List Value}
    (hnew : ∀ doc ∈ new, doc.WellFormed) :
    (∀ docs, collection.file.read world.folder = .ok docs →
      collection.file.Writable world.folder →
        (AllOrNothing collection world new ↔ ¬ Blocked collection world new) ∧
        (Blocked collection world new →
          (exec (new.mapM collection.insertOne) world).1 =
            .error .serialization ∧
          (exec (collection.insertMany new) world).1 ≠
            .error .serialization)) ∧
      ∀ e, collection.file.read world.folder = .error e →
        (AllOrNothing collection world new ↔ new ≠ []) := by
  refine ⟨?_, fun e hread => allOrNothing_of_read_error hread new⟩
  intro docs hread hwrite
  exact ⟨allOrNothing_iff hread hwrite hnew, fun hblocked =>
    ⟨hblocked.fails hnew, insertMany_ne_serialization hread hwrite⟩⟩

theorem wellFormed_bare (id : String) : (bare id).WellFormed :=
  Value.wellFormed_object_iff.mpr
    ⟨by simp [Fields.keys], by simp [Value.wellFormed_string]⟩

/-- The second of two new documents has no identifier, or that of the document
that is stored. -/
theorem insertMany_all_or_nothing_oneStored :
    (∃ all after left,
        exec (Session.people.insertMany [bare "b", .object []]) oneStored =
        (.ok [.string "b", .string "0"], all) ∧
      exec ([bare "b", .object []].mapM Session.people.insertOne) oneStored =
        (.ok [.string "b", .string "0"], after) ∧
      Session.people.file.Lists all.folder left ∧
      Session.people.file.Lists after.folder left) ∧
    ∃ all, exec (Session.people.insertMany [bare "b", bare "a"]) oneStored =
      (.error (.duplicateId (.string "a")), all) ∧
        all.folder = oneStored.folder := by
  have hread : Session.people.file.read oneStored.folder = .ok [bare "a"] := by
    decide +kernel
  have hwrite : Session.people.file.Writable oneStored.folder :=
    writable_of_read hread (.inr (by decide +kernel))
  have hgiven :
      (exec ([bare "b", .object []].mapM Session.people.insertOne) oneStored).1 =
      .ok [.string "b", .string "0"] := by
    decide +kernel
  have hrefused :
      (exec ([bare "b", bare "a"].mapM Session.people.insertOne) oneStored).1 =
      .error (.duplicateId (.string "a")) := by
    decide +kernel
  obtain ⟨world, hworld⟩ : ∃ world, oneStored = world := ⟨_, rfl⟩
  rw [hworld] at hread hwrite hgiven hrefused ⊢
  have hstored : AllOrNothing Session.people world [bare "b", .object []] :=
    ((insertMany_all_or_nothing
        (by simp [wellFormed_bare, Value.wellFormed_emptyObject])).1
      _ hread hwrite).1.mpr (not_blocked_of_depth (by decide))
  have hnothing : AllOrNothing Session.people world [bare "b", bare "a"] :=
    ((insertMany_all_or_nothing (by simp [wellFormed_bare])).1
      _ hread hwrite).1.mpr (not_blocked_of_depth (by decide))
  rw [AllOrNothing] at hstored hnothing
  refine ⟨?_, ?_⟩
  · cases hrun : exec ([bare "b", .object []].mapM Session.people.insertOne)
      world with
    | mk outcome after =>
        rw [hrun] at hgiven hstored
        cases hgiven
        obtain ⟨all, left, hall, hlists, hlists', -⟩ := hstored
        exact ⟨all, after, left, hall, rfl, hlists, hlists'⟩
  · cases hrun : exec ([bare "b", bare "a"].mapM Session.people.insertOne)
      world with
    | mk outcome after =>
        rw [hrun] at hrefused hnothing
        cases hrefused
        exact hnothing

/-- An object in an object, and so on. -/
def nested : Nat → Value
  | 0 => .null
  | n + 1 => .object [("a", nested n)]

theorem wellFormed_nested (n : Nat) : (nested n).WellFormed := by
  induction n with
  | zero => exact Value.wellFormed_null
  | succ n ih =>
      exact Value.wellFormed_object_iff.mpr ⟨by simp [Fields.keys], by simpa⟩

/-- A document that is too deep for a file. -/
def tooDeep : Value := .object [(idKey, .string "x"), ("a", nested 140)]

theorem storable_tooDeep : tooDeep.Storable where
  wellFormed := Value.wellFormed_object_iff.mpr
    ⟨by decide, by simp [Value.wellFormed_string, wellFormed_nested]⟩
  isObject := rfl

/-- A world in which the document that is too deep is stored. -/
def tooDeepStored : World :=
  ⟨Session.people.file.written none [tooDeep], Session.nowhere.ids⟩

/-- A collection whose file has a name that is too long. -/
def longNamed : Collection :=
  .ofConfig {} (String.ofList (List.replicate 251 'a'))

/-- A document that is too deep for the file stands before another one: both are
inserted at once, and the second one is not inserted after the first. Then the
file cannot be read again, and inserting no document fails, where there is no
single insertion that could fail. In a file that cannot be written, the first of
two documents is not inserted, and at once the second one is found to repeat the
identifier before that is tried. -/
theorem insertMany_apart :
    (Session.people.file.read Session.nowhere.folder = .ok [] ∧
      (exec (Session.people.insertMany [tooDeep, bare "b"]) Session.nowhere).1 =
        .ok [.string "x", .string "b"] ∧
      (exec ([tooDeep, bare "b"].mapM Session.people.insertOne)
          Session.nowhere).1 =
        .error .serialization ∧
      ¬ AllOrNothing Session.people Session.nowhere [tooDeep, bare "b"]) ∧
    (Session.people.file.Holds tooDeepStored.folder [tooDeep] ∧
      (exec (Session.people.insertMany []) tooDeepStored).1 =
        .error .serialization ∧
      (exec (([] : List Value).mapM Session.people.insertOne) tooDeepStored).1 =
        .ok [] ∧
      ¬ AllOrNothing Session.people tooDeepStored []) ∧
    (longNamed.file.read Session.nowhere.folder = .ok [] ∧
      (exec (longNamed.insertMany [bare "a", bare "a"]) Session.nowhere).1 =
        .error (.duplicateId (.string "a")) ∧
      (exec ([bare "a", bare "a"].mapM longNamed.insertOne)
          Session.nowhere).1 =
        .error .io ∧
      ¬ AllOrNothing longNamed Session.nowhere [bare "a", bare "a"]) := by
  have hread : Session.people.file.read Session.nowhere.folder = .ok [] := rfl
  have hwrite : Session.people.file.Writable none :=
    writable_of_read hread (.inr (by decide +kernel))
  have hmany :
      (exec (Session.people.insertMany [tooDeep, bare "b"]) Session.nowhere).1 =
      .ok [.string "x", .string "b"] := by
    rw [commits_insertMany _ _ _ _ hread hwrite]
    rfl
  have hones :
      (exec ([tooDeep, bare "b"].mapM Session.people.insertOne)
        Session.nowhere).1 =
      .error .serialization := by
    have hone : (exec (Session.people.insertOne tooDeep) Session.nowhere).1 =
        .ok (.string "x") := by
      rw [commits_insertOne _ _ _ _ hread hwrite]
      rfl
    cases hrun : exec (Session.people.insertOne tooDeep) Session.nowhere with
    | mk outcome after =>
        rw [hrun] at hone
        cases hone
        exact (Blocked.head (by decide +kernel) hrun).fails
          (by simp [storable_tooDeep.wellFormed, wellFormed_bare])
  have hunread : Session.people.file.read tooDeepStored.folder =
      .error .serialization :=
    (read_written_eq hwrite (by simp [storable_tooDeep])).trans
      (if_neg (by decide +kernel))
  have hagain : (exec (Session.people.insertMany []) tooDeepStored).1 =
      .error .serialization :=
    congrArg Prod.fst (exec_insertMany_of_read_error hunread [])
  have hrepeated :
      (exec (longNamed.insertMany [bare "a", bare "a"]) Session.nowhere).1 =
      .error (.duplicateId (.string "a")) := by
    decide +kernel
  have hunwritten :
      (exec ([bare "a", bare "a"].mapM longNamed.insertOne)
        Session.nowhere).1 =
      .error .io := by
    decide +kernel
  refine ⟨⟨hread, hmany, hones, ?_⟩,
    ⟨.inl (find_written hwrite _), hagain, rfl, ?_⟩,
    ⟨rfl, hrepeated, hunwritten, ?_⟩⟩
  · refine mt AllOrNothing.outcome_eq ?_
    rw [hmany, hones]
    decide
  · intro h
    exact (allOrNothing_of_read_error hunread []).mp h rfl
  · refine mt AllOrNothing.outcome_eq ?_
    rw [hrepeated, hunwritten]
    decide

end Collection

end DocumentStore
