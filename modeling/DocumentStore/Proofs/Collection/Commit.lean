import DocumentStore.Proofs.Collection

/-!
# What an operation that writes comes to

Where the file of a collection can be read and written, an operation that writes
is decided by its run in memory. The outcome is that of the run, the supply of
identifiers is where the run left it, and the file is written with the documents
that the run left, or it is not touched. `Commits` says this, with the results
after which the file is written; `lists_settled` says that it lists the
documents of the run either way.

A bulk write is different in that it writes the file also if it fails. That a
file which can be read can be written is no condition to speak of: it fails only
where the directory is not there yet and the name is too long for a file in it
(`writable_of_read`).
-/

namespace DocumentStore

variable {collection : Collection} {world : World} {docs : List Value}
  {left : Batch}
  {now : Instant}

/-- Something was modified or brought about. -/
def Write.Outcome.changed (outcome : Write.Outcome) : Bool :=
  0 < outcome.modified || outcome.upsertedId.isSome

namespace Collection

/-- The world after a run in memory, with or without the file written. -/
def settled (collection : Collection) (world : World) (write : Bool)
    (left : Batch) : World :=
  ⟨if write then collection.file.written world.folder left.docs
    else world.folder, left.ids⟩

theorem lists_settled {write : Bool}
    (hread : collection.file.read world.folder = .ok docs)
    (hwrite : collection.file.Writable world.folder)
    (hkept : write = false → left.docs = docs) :
    collection.file.Lists (collection.settled world write left).folder
      left.docs := by
  cases write with
  | true => exact CollectionFile.lists_written hwrite left.docs
  | false =>
      rw [hkept rfl]
      exact .inr hread

theorem exec_edit_bind (hread : collection.file.read world.folder = .ok docs)
    (w : Write α) (next : Result α × Batch → Store β) :
    exec (collection.edit w >>= next) world =
      exec (next (exec w (.ofDocs docs world.ids)))
        { world with ids := (exec w (.ofDocs docs world.ids)).2.ids } := by
  rw [exec_bind, exec_edit, hread]

/-- Writing the file, or not, is the last thing before the result. -/
theorem exec_settle (hwrite : collection.file.Writable world.folder)
    (write : Bool) (left : Batch) (a : α) :
    exec (if write then collection.file.save left.docs >>= fun _ => pure a
        else pure a : Store α)
        ⟨world.folder, left.ids⟩ =
      (.ok a, collection.settled world write left) := by
  cases write with
  | true =>
      exact CollectionFile.exec_save_bind hwrite left.docs left.ids fun _ =>
        pure a
  | false => rfl

/-- The operation runs a write in memory. If that succeeds the file is written,
provided that `write` asks for it, and the result is what `give` makes of the
run's. -/
def Commits (collection : Collection) (m : Store β) (w : Write α)
    (write : α → Bool) (give : α → β) : Prop :=
  ∀ world docs, collection.file.read world.folder = .ok docs →
    collection.file.Writable world.folder →
    exec m world =
      match exec w (.ofDocs docs world.ids) with
      | (.ok a, left) => (.ok (give a), collection.settled world (write a) left)
      | (.error e, left) => (.error e, collection.settled world false left)

/-- An edit that is always followed by a save if it succeeds. -/
theorem commits_edit (collection : Collection) (w : Write α) :
    Commits collection
      (collection.edit w >>= fun edited => Store.ofResult edited.1 >>= fun a =>
        collection.file.save edited.2.docs >>= fun _ => pure a)
      w (fun _ => true) id := by
  intro world docs hread hwrite
  rw [exec_edit_bind hread]
  cases exec w (.ofDocs docs world.ids) with
  | mk outcome left =>
      cases outcome with
      | error e => rfl
      | ok given => exact exec_settle hwrite true left given

theorem commits_insertOne (collection : Collection) (doc : Value) :
    Commits collection (collection.insertOne doc) (Write.insert doc)
      (fun _ => true) id :=
  commits_edit collection (Write.insert doc)

theorem commits_insertMany (collection : Collection) (new : List Value) :
    Commits collection (collection.insertMany new) (new.mapM Write.insert)
      (fun _ => true) id :=
  commits_edit collection (new.mapM Write.insert)

theorem commits_update (collection : Collection) (now : Instant)
    (filter spec : Value) (many : Bool) (options : UpdateOptions) :
    Commits collection (collection.update now filter spec many options)
      (Write.update now filter (.update spec) many options.upsert)
        Write.Outcome.changed id := by
  intro world docs hread hwrite
  rw [update, exec_edit_bind hread]
  cases exec (Write.update now filter (.update spec) many options.upsert)
    (.ofDocs docs world.ids) with
  | mk outcome left =>
      cases outcome with
      | error e => rfl
      | ok given => exact exec_settle hwrite given.changed left given

/-- The document that is given back, of the two versions. -/
def givenBack (collection : Collection) (returned : ReturnDocument)
    (revision : Write.Revision) : Option Document :=
  match returned with
  | .before => revision.before.map collection.bind
  | .after => revision.after.map collection.bind

theorem commits_findOneAndUpdate (collection : Collection) (now : Instant)
    (filter spec : Value) (options : FindOneAndUpdateOptions) :
    Commits collection (collection.findOneAndUpdate now filter spec options)
      (Write.revise now filter (.update spec) options.upsert)
        Write.Revision.written
      (collection.givenBack options.returned) := by
  intro world docs hread hwrite
  rw [findOneAndUpdate, exec_edit_bind hread]
  cases exec (Write.revise now filter (.update spec) options.upsert)
    (.ofDocs docs world.ids) with
  | mk outcome left =>
      cases outcome with
      | error e => rfl
      | ok revision =>
          cases options.returned with
          | before => exact exec_settle hwrite revision.written left _
          | after => exact exec_settle hwrite revision.written left _

theorem exec_bulkWrite (now : Instant) (models : List WriteModel)
    (hread : collection.file.read world.folder = .ok docs)
    (hwrite : collection.file.Writable world.folder) :
    exec (collection.bulkWrite now models) world =
      ((exec (Bulk.run now models) (.ofDocs docs world.ids)).1,
        collection.settled world true
          (exec (Bulk.run now models) (.ofDocs docs world.ids)).2) := by
  rw [bulkWrite, exec_edit_bind hread]
  exact CollectionFile.exec_save_bind hwrite _ _ fun _ => Store.ofResult _

end Collection

end DocumentStore
