import DocumentStore.Proofs.Atomicity

/-!
# What operations do to the directory

An operation of the store makes the directory, writes files and removes files,
and nothing else. It is `Confined` to names if the files that it writes and
removes, whether it fails or not, have such names; then the files of other names
are `Untouched`.

There is one rule for each way in which operations are put together, and with
them one lemma for each operation: it is confined to the file of its collection
and, for a document at hand, to the file that it came from.
-/

namespace DocumentStore

open Relation

variable {names : String → Prop}

/-! ## Files that are left alone -/

/-- What the file holds is as it was, and so is what is read of it. A name that
is too long is refused only where there is a directory, so for such a name the
directory must have been there. -/
structure CollectionFile.Untouched (file : CollectionFile)
    (before after : Folder) : Prop where
  stored : after.stored? file.name = before.stored? file.name
  read : before.isSome = true ∨ file.name.utf8ByteSize ≤ Folder.greatestName →
    file.read after = file.read before

theorem CollectionFile.untouched_of_touches {file : CollectionFile}
    {before after : Folder}
    (h : ReflTransGen (Folder.Touches names) before after)
    (hother : ¬ names file.name) :
    file.Untouched before after := by
  obtain ⟨hstored, hthere⟩ := Folder.frame_of_touches h hother
  refine ⟨hstored, fun hname => ?_⟩
  have hfind : after.find file.name = before.find file.name :=
    Folder.find_congr hstored hthere hname
  rw [read, read, hfind]

/-! ## Confined operations -/

/-- Whatever becomes of an operation, all that it does to the directory are
changes to files of these names. If it succeeds its result is one of those of
which `Q` holds. -/
def Confined (names : String → Prop) (m : Store α) (Q : α → Prop) : Prop :=
  ∀ world, ReflTransGen (Folder.Touches names) world.folder
    (exec m world).2.folder ∧
    ∀ a, (exec m world).1 = .ok a → Q a

namespace Confined

variable {file : CollectionFile} {docs : List Value} {Q : α → Prop}

theorem of_sameFolder {m : Store α} (h : Leads SameFolder m) :
    Confined names m fun _ => True := by
  intro world
  have hsame : (exec m world).2.folder = world.folder := h world
  rw [hsame]
  exact ⟨.refl, fun _ _ => trivial⟩

theorem pure {a : α} (h : Q a) : Confined names (Pure.pure a) Q := by
  refine fun world => ⟨.refl, ?_⟩
  intro b hb
  cases hb
  exact h

theorem throw (e : Error) : Confined names (MonadExcept.throw e : Store α) Q :=
  fun _ => ⟨.refl, nofun⟩

theorem ofResult {r : Result α} (h : ∀ a, r = .ok a → Q a) :
    Confined names (Store.ofResult r) Q :=
  fun _ => ⟨.refl, h⟩

theorem imp {m : Store α} {R : α → Prop} (hm : Confined names m Q)
    (h : ∀ a, Q a → R a) : Confined names m R :=
  fun world => ⟨(hm world).1, fun a ha => h a ((hm world).2 a ha)⟩

theorem bind {m : Store α} {k : α → Store β} {R : β → Prop}
    (hm : Confined names m Q) (hk : ∀ a, Q a → Confined names (k a) R) :
    Confined names (m >>= k) R := by
  intro world
  obtain ⟨htouches, hok⟩ := hm world
  rw [exec_bind]
  cases hrun : exec m world with
  | mk outcome next =>
      rw [hrun] at htouches hok
      cases outcome with
      | error e => exact ⟨htouches, nofun⟩
      | ok a =>
          obtain ⟨hmore, hresult⟩ := hk a (hok a rfl) next
          exact ⟨htouches.trans hmore, hresult⟩

/-- What comes after an operation that only reads. -/
theorem read {m : Store α} {k : α → Store β} {R : β → Prop}
    (hm : Leads SameFolder m) (hk : ∀ a, Confined names (k a) R) :
    Confined names (m >>= k) R :=
  bind (of_sameFolder hm) fun a _ => hk a

theorem save (h : names file.name) :
    Confined names (file.save docs) fun _ => True := by
  refine fun world => ⟨?_, fun _ _ => trivial⟩
  rw [CollectionFile.exec_save]
  cases hwrite : world.folder.write file.name
    (CollectionFile.encode file.pretty docs) with
  | ok folder => exact .single (.write h hwrite)
  | error e => exact .single .make

theorem save_pure {a : α} (h : names file.name) (ha : Q a) :
    Confined names (file.save docs >>= fun _ => Pure.pure a) Q :=
  bind (save h) fun _ _ => pure ha

theorem remove (h : names file.name) :
    Confined names file.remove fun _ => True := by
  refine fun world => ⟨?_, fun _ _ => trivial⟩
  rw [CollectionFile.exec_remove]
  cases hremove : world.folder.remove file.name with
  | ok found => exact .single (.remove h hremove)
  | error e => exact .refl

/-- An operation that is asked for what it does alone. -/
theorem nothing {m : Store α} {R : List β → Prop} (hm : Confined names m Q)
    (h : R []) :
    Confined names (m >>= fun _ => Pure.pure []) R :=
  bind hm fun _ _ => pure h

end Confined

/-! ## The operations -/

theorem Document.confined_save {doc : Document} (h : names doc.file.name) :
    Confined names doc.save fun _ => True := by
  rw [Document.save]
  split
  · exact .throw _
  · refine .read (sameFolder_load _) fun docs => ?_
    split
    · exact .save h
    · exact .save h

/-- What can be done with a collection: what a session asks of it, and what
gives no documents to hold on to or takes the file away. -/
inductive Operation where
  | request (asked : Request)
  | getById (id : Value)
  | count (filter : Value)
  | distinct (field : String) (filter : Value)
  | aggregate (pipeline : Value)
  | countFound (find : Find)
  | drop

/-- Do it, and give the documents that come of it. -/
def Operation.run (collection : Collection) (now : Instant)
    (handles : List Document) :
    Operation → Store (List Document)
  | .request asked => asked.run collection now handles
  | .getById id => collection.getById id >>= fun doc => pure [doc]
  | .count filter => collection.count filter >>= fun _ => pure []
  | .distinct field filter =>
      collection.distinct field filter >>= fun _ => pure []
  | .aggregate pipeline => collection.aggregate pipeline >>= fun _ => pure []
  | .countFound find =>
      Find.count { find with file := collection.file } >>= fun _ => pure []
  | .drop => collection.drop >>= fun _ => pure []

namespace Collection

variable {collection : Collection} {now : Instant} {filter spec : Value}

/-! ### Reading -/

theorem confined_findOne :
    Confined names (collection.findOne filter) fun found =>
    ∀ doc ∈ found.toList, doc.file = collection.file := by
  refine .read (sameFolder_ofResult _) fun clause =>
    .read (sameFolder_load _) fun docs =>
    .read (sameFolder_ofResult _) fun found => .pure ?_
  cases found with
  | none => simp
  | some doc => simp [Collection.bind]

theorem confined_findById {id : Value} :
    Confined names (collection.findById id) fun found =>
    ∀ doc ∈ found.toList, doc.file = collection.file := by
  refine .read (sameFolder_load _) fun docs => .pure ?_
  cases ((IdIndex.build docs).find? id).bind (docs[·]?) with
  | none => simp
  | some doc => simp [Collection.bind]

theorem confined_getById {id : Value} :
    Confined names (collection.getById id) fun doc =>
    doc.file = collection.file := by
  refine .bind confined_findById fun found hfound => ?_
  cases found with
  | none => exact .throw _
  | some doc => exact .pure (hfound doc (by simp))

theorem confined_count :
    Confined names (collection.count filter) fun _ => True :=
  .read (sameFolder_ofResult _) fun _ => .read (sameFolder_load _) fun _ =>
    .read (sameFolder_ofResult _) fun _ => .pure trivial

theorem confined_distinct {field : String} :
    Confined names (collection.distinct field filter) fun _ => True :=
  .read (sameFolder_ofResult _) fun _ => .read (sameFolder_ofResult _) fun _ =>
    .read (sameFolder_load _) fun _ => .read (sameFolder_ofResult _) fun _ =>
      .pure trivial

theorem confined_aggregate {pipeline : Value} :
    Confined names (collection.aggregate pipeline) fun _ => True :=
  .read (sameFolder_ofResult _) fun _ => .read (sameFolder_load _) fun _ =>
    .of_sameFolder (sameFolder_ofResult _)

theorem confined_found {find : Find} :
    Confined names find.found fun _ => True := by
  rw [Find.found]
  split
  · exact .throw _
  · exact .read (sameFolder_load _) fun _ =>
      .of_sameFolder (sameFolder_ofResult _)

theorem confined_search {find : Find} : Confined names find.run fun _ => True :=
  .bind confined_found fun _ _ => .of_sameFolder (sameFolder_ofResult _)

theorem confined_countFound {find : Find} :
    Confined names find.count fun _ => True :=
  .bind confined_found fun _ _ => .pure trivial

/-! ### Writing -/

theorem confined_insertOne {doc : Value} (h : names collection.file.name) :
    Confined names (collection.insertOne doc) fun _ => True :=
  .read (sameFolder_edit _ _) fun _ => .read (sameFolder_ofResult _) fun _ =>
    .save_pure h trivial

theorem confined_create {doc : Value} (h : names collection.file.name) :
    Confined names (collection.create doc) fun made =>
      made.file = collection.file :=
  .read (sameFolder_edit _ _) fun _ => .read (sameFolder_ofResult _) fun _ =>
    .save_pure h rfl

theorem confined_insertMany {docs : List Value}
    (h : names collection.file.name) :
    Confined names (collection.insertMany docs) fun _ => True :=
  .read (sameFolder_edit _ _) fun _ => .read (sameFolder_ofResult _) fun _ =>
    .save_pure h trivial

theorem confined_update {many : Bool} {options : UpdateOptions}
    (h : names collection.file.name) :
    Confined names (collection.update now filter spec many options) fun _ =>
      True := by
  refine .read (sameFolder_edit _ _) fun edited =>
    .read (sameFolder_ofResult _) fun outcome => ?_
  split
  · exact .save_pure h trivial
  · exact .pure trivial

theorem confined_findOneAndUpdate {options : FindOneAndUpdateOptions}
    (h : names collection.file.name) :
    Confined names (collection.findOneAndUpdate now filter spec options)
      fun found =>
      ∀ doc ∈ found.toList, doc.file = collection.file := by
  have hfile : ∀ found : Option Value,
      ∀ doc ∈ (found.map collection.bind).toList,
      doc.file = collection.file := by
    rintro (_ | doc)
    · simp
    · simp [Collection.bind]
  refine .read (sameFolder_edit _ _) fun edited =>
    .read (sameFolder_ofResult _) fun revision => ?_
  split
  · split
    · exact .save_pure h (hfile _)
    · exact .pure (hfile _)
  · split
    · exact .save_pure h (hfile _)
    · exact .pure (hfile _)

theorem confined_delete {many : Bool} (h : names collection.file.name) :
    Confined names (collection.delete filter many) fun _ => True := by
  refine .read (sameFolder_edit _ _) fun edited =>
    .read (sameFolder_ofResult _) fun taken => ?_
  split
  · exact .save_pure h trivial
  · exact .pure trivial

/-- A bulk write saves before it reports a failure. -/
theorem confined_bulkWrite {models : List WriteModel}
    (h : names collection.file.name) :
    Confined names (collection.bulkWrite now models) fun _ => True :=
  .read (sameFolder_edit _ _) fun _ =>
    .bind (.save h) fun _ _ => .of_sameFolder (sameFolder_ofResult _)

/-! ### All of them -/

variable {handles : List Document}

theorem confined_request (h : names collection.file.name)
    (hhandles : ∀ doc ∈ handles, names doc.file.name) (request : Request) :
    Confined names (request.run collection now handles) fun given =>
      ∀ doc ∈ given, doc.file = collection.file := by
  cases request with
  | insertOne doc => exact .nothing (confined_insertOne h) (by simp)
  | create doc =>
      exact .bind (confined_create h) fun made hmade =>
        .pure (by simpa using hmade)
  | insertMany docs => exact .nothing (confined_insertMany h) (by simp)
  | updateOne filter spec options =>
      exact .nothing (confined_update h) (by simp)
  | updateMany filter spec options =>
      exact .nothing (confined_update h) (by simp)
  | findOneAndUpdate filter spec options =>
      exact .bind (confined_findOneAndUpdate h) fun found hfound => .pure hfound
  | deleteOne filter => exact .nothing (confined_delete h) (by simp)
  | deleteMany filter => exact .nothing (confined_delete h) (by simp)
  | bulkWrite models => exact .nothing (confined_bulkWrite h) (by simp)
  | findOne filter =>
      exact .bind confined_findOne fun found hfound => .pure hfound
  | findById id =>
      exact .bind confined_findById fun found hfound => .pure hfound
  | search find =>
      exact .bind confined_search fun found _ =>
        .pure (by simp [Collection.bind])
  | save handle =>
      rw [Request.run]
      split
      · next doc hdoc =>
          exact .nothing
            (Document.confined_save (hhandles doc (List.mem_of_getElem? hdoc)))
              (by simp)
      · exact .throw _

theorem confined_operation (h : names collection.file.name)
    (hhandles : ∀ doc ∈ handles, names doc.file.name) (operation : Operation) :
    Confined names (operation.run collection now handles) fun given =>
      ∀ doc ∈ given, doc.file = collection.file := by
  cases operation with
  | request asked => exact confined_request h hhandles asked
  | getById id =>
      exact .bind confined_getById fun doc hdoc => .pure (by simpa using hdoc)
  | count filter => exact .nothing confined_count (by simp)
  | distinct field filter => exact .nothing confined_distinct (by simp)
  | aggregate pipeline => exact .nothing confined_aggregate (by simp)
  | countFound find => exact .nothing confined_countFound (by simp)
  | drop => exact .nothing (.remove h) (by simp)

end Collection

end DocumentStore
