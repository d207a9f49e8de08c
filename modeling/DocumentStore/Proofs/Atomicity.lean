import DocumentStore.Proofs.Session

/-!
# Operations that fail write nothing

An operation that writes reads the file first, does its work in memory and saves
last. Whatever goes wrong in between, with the first document or the last,
happens before the directory is touched; and what comes after a save cannot
fail. So if an operation fails, then either it has not saved, or the save itself
has failed, and that is an error of the file.

`WritesLast` says so of an operation, together with the results that it gives
only after saving. There is one rule for each way in which operations are put
together, and with them one lemma for each operation. A bulk write is not among
them: it saves what was done before its failure.
-/

namespace DocumentStore

variable {file : CollectionFile} {docs : List Value}

/-! ## Reading and writing last -/

/-- The directory is as it was. -/
def SameFolder (before after : World) : Prop := after.folder = before.folder

/-- If the directory is not as it was, then the file could not be written, or
the operation has succeeded with a result of which `Q` holds. -/
def WritesLast (m : Store α) (Q : α → Prop) : Prop :=
  ∀ world, SameFolder world (exec m world).2 ∨ (exec m world).1 = .error .io ∨
    ∃ a, (exec m world).1 = .ok a ∧ Q a

theorem sameFolder_load (file : CollectionFile) : Leads SameFolder file.load :=
  fun _ => rfl

theorem sameFolder_ofResult (r : Result α) :
    Leads SameFolder (Store.ofResult r) := fun _ => rfl

theorem sameFolder_edit (collection : Collection) (w : Write α) :
    Leads SameFolder (collection.edit w) := by
  intro world
  rw [Collection.exec_edit]
  cases collection.file.read world.folder with
  | error e => rfl
  | ok docs => rfl

namespace WritesLast

variable {Q : α → Prop}

theorem of_leads {m : Store α} (h : Leads SameFolder m) : WritesLast m Q :=
  fun world => .inl (h world)

theorem pure (a : α) : WritesLast (Pure.pure a : Store α) Q :=
  of_leads fun _ => rfl

theorem throw (e : Error) : WritesLast (MonadExcept.throw e : Store α) Q :=
  of_leads fun _ => rfl

/-- What comes before an operation that writes last may only read. -/
theorem bind {m : Store α} {k : α → Store β} {Q : β → Prop}
    (hm : Leads SameFolder m) (hk : ∀ a, WritesLast (k a) Q) :
    WritesLast (m >>= k) Q := by
  intro world
  have hfirst := hm world
  rw [exec_bind]
  cases hrun : exec m world with
  | mk outcome next =>
      rw [hrun] at hfirst
      cases outcome with
      | error e => exact .inl hfirst
      | ok a =>
          -- Both sides speak of the directory alone, so `next` may stand for
          -- `world`.
          have hfolder : next.folder = world.folder := hfirst
          have hnext := hk a next
          rwa [SameFolder, hfolder] at hnext

/-- What comes after a save is only a result. -/
theorem save_pure {a : α} (h : Q a) :
    WritesLast (file.save docs >>= fun _ => Pure.pure a) Q := by
  intro world
  have hio : ∀ e, (exec (file.save docs) world).1 = .error e → e = .io :=
    fun e he => CollectionFile.io_of_save he
  rw [exec_bind]
  cases hrun : exec (file.save docs) world with
  | mk outcome next =>
      rw [hrun] at hio
      cases outcome with
      | error e => exact .inr (.inl (congrArg _ (hio e rfl)))
      | ok _ => exact .inr (.inr ⟨a, rfl, h⟩)

theorem save : WritesLast (file.save docs) fun _ => True := by
  have h : WritesLast (file.save docs >>= fun _ => Pure.pure ()) fun _ =>
      True := save_pure trivial
  rwa [bind_pure] at h

end WritesLast

/-! ## The operations -/

namespace Collection

variable (collection : Collection) (now : Instant) (filter spec : Value)

theorem writesLast_insertOne (doc : Value) :
    WritesLast (collection.insertOne doc) fun _ => True := by
  refine .bind (sameFolder_edit _ _) fun edited =>
    .bind (sameFolder_ofResult _) fun id => ?_
  exact .save_pure trivial

theorem writesLast_create (doc : Value) :
    WritesLast (collection.create doc) fun _ => True := by
  refine .bind (sameFolder_edit _ _) fun edited =>
    .bind (sameFolder_ofResult _) fun id => ?_
  exact .save_pure trivial

theorem writesLast_insertMany (docs : List Value) :
    WritesLast (collection.insertMany docs) fun _ => True := by
  refine .bind (sameFolder_edit _ _) fun edited =>
    .bind (sameFolder_ofResult _) fun ids => ?_
  exact .save_pure trivial

theorem writesLast_update (many : Bool) (options : UpdateOptions) :
    WritesLast (collection.update now filter spec many options) fun outcome =>
      0 < outcome.modified ∨ outcome.upsertedId.isSome = true := by
  refine .bind (sameFolder_edit _ _) fun edited =>
    .bind (sameFolder_ofResult _) fun outcome => ?_
  split
  · next hchanged => exact .save_pure (by simpa using hchanged)
  · exact .pure outcome

theorem writesLast_findOneAndUpdate (options : FindOneAndUpdateOptions) :
    WritesLast (collection.findOneAndUpdate now filter spec options) fun _ =>
      True := by
  refine .bind (sameFolder_edit _ _) fun edited =>
    .bind (sameFolder_ofResult _) fun revision => ?_
  split
  · split
    · exact .save_pure trivial
    · exact .pure _
  · split
    · exact .save_pure trivial
    · exact .pure _

theorem writesLast_delete (many : Bool) :
    WritesLast (collection.delete filter many) (0 < ·) := by
  refine .bind (sameFolder_edit _ _) fun edited =>
    .bind (sameFolder_ofResult _) fun taken => ?_
  split
  · next htaken =>
      exact .save_pure (by simpa [List.length_pos_iff] using htaken)
  · exact .pure _

end Collection

theorem Document.writesLast_save (doc : Document) :
    WritesLast doc.save fun _ => True := by
  rw [Document.save]
  split
  · exact .throw _
  · refine .bind (sameFolder_load _) fun docs => ?_
    split
    · exact .save
    · exact .save

/-! ## What is left of a failure -/

/-- An operation that fails, and not at the file, leaves the directory as it
was. -/
def FailsClean (m : Store α) : Prop :=
  ∀ world e after, exec m world = (.error e, after) → e ≠ .io →
    after.folder = world.folder

/-- An operation that gives a result of which `Q` holds leaves the directory as
it was. -/
def IdleOn (m : Store α) (Q : α → Prop) : Prop :=
  ∀ world a after, exec m world = (.ok a, after) → Q a →
    after.folder = world.folder

namespace WritesLast

variable {m : Store α} {Q R : α → Prop}

theorem failsClean (h : WritesLast m Q) : FailsClean m := by
  intro world e after hrun hio
  have hcases := h world
  rw [hrun] at hcases
  rcases hcases with hsame | herror | ⟨a, ha, -⟩
  · exact hsame
  · exact absurd (Except.error.inj herror) hio
  · cases ha

theorem idleOn (h : WritesLast m Q) (hR : ∀ a, R a → ¬ Q a) : IdleOn m R := by
  intro world a after hrun ha
  have hcases := h world
  rw [hrun] at hcases
  rcases hcases with hsame | herror | ⟨b, hb, hQ⟩
  · exact hsame
  · cases herror
  · cases hb
    exact absurd hQ (hR a ha)

end WritesLast

/-- Every operation but a bulk write leaves the directory as it was if it fails,
unless it is the file that cannot be read or written. So does an update that
changes nothing and brings nothing about, and a deletion that finds nothing. -/
theorem failed_operations_write_nothing (collection : Collection)
    (now : Instant) :
    (∀ doc, FailsClean (collection.insertOne doc)) ∧
    (∀ doc, FailsClean (collection.create doc)) ∧
    (∀ docs, FailsClean (collection.insertMany docs)) ∧
    (∀ filter spec options,
      FailsClean (collection.updateOne now filter spec options)) ∧
    (∀ filter spec options,
      FailsClean (collection.updateMany now filter spec options)) ∧
    (∀ filter spec options,
      FailsClean (collection.findOneAndUpdate now filter spec options)) ∧
    (∀ filter, FailsClean (collection.deleteOne filter)) ∧
    (∀ filter, FailsClean (collection.deleteMany filter)) ∧
    (∀ doc : Document, FailsClean doc.save) ∧
    (∀ filter spec options,
        IdleOn (collection.updateOne now filter spec options) fun outcome =>
      outcome.modified = 0 ∧ outcome.upsertedId = none) ∧
    (∀ filter spec options,
        IdleOn (collection.updateMany now filter spec options) fun outcome =>
      outcome.modified = 0 ∧ outcome.upsertedId = none) ∧
    (∀ filter, IdleOn (collection.deleteOne filter) (· = 0)) ∧
    ∀ filter, IdleOn (collection.deleteMany filter) (· = 0) := by
  have hidle : ∀ outcome : Write.Outcome,
      outcome.modified = 0 ∧ outcome.upsertedId = none →
      ¬ (0 < outcome.modified ∨ outcome.upsertedId.isSome = true) := by
    rintro outcome ⟨hmodified, hupserted⟩
    simp [hmodified, hupserted]
  have hnone : ∀ n : Nat, n = 0 → ¬ 0 < n := by
    rintro n rfl
    exact Nat.lt_irrefl 0
  exact
    ⟨fun doc => (collection.writesLast_insertOne doc).failsClean,
      fun doc => (collection.writesLast_create doc).failsClean,
      fun docs => (collection.writesLast_insertMany docs).failsClean,
      fun filter spec options =>
        (collection.writesLast_update now filter spec false options).failsClean,
      fun filter spec options =>
        (collection.writesLast_update now filter spec true options).failsClean,
      fun filter spec options =>
        (collection.writesLast_findOneAndUpdate now filter spec
          options).failsClean,
      fun filter => (collection.writesLast_delete filter false).failsClean,
      fun filter => (collection.writesLast_delete filter true).failsClean,
      fun doc => doc.writesLast_save.failsClean,
      fun filter spec options =>
        (collection.writesLast_update now filter spec false options).idleOn hidle,
      fun filter spec options =>
        (collection.writesLast_update now filter spec true options).idleOn hidle,
      fun filter => (collection.writesLast_delete filter false).idleOn hnone,
      fun filter => (collection.writesLast_delete filter true).idleOn hnone⟩

/-- A document that is nothing but its identifier. -/
def bare (id : String) : Value := .object [(idKey, .string id)]

/-- A world in which one document is stored. -/
def oneStored : World :=
  (exec (Session.people.insertOne (bare "a")) Session.nowhere).2

/-- The second of two new documents has the identifier of the one that is
stored: then the first one is not stored either. A deletion that finds nothing
rewrites nothing. -/
theorem failed_operations_write_nothing_oneStored :
    (exec Session.people.file.load oneStored).1 = .ok [bare "a"] ∧
      (∃ after, exec (Session.people.insertMany [bare "b", bare "a"]) oneStored =
        (.error (.duplicateId (.string "a")), after) ∧
          after.folder = oneStored.folder) ∧
      ∃ after, exec (Session.people.deleteMany (bare "c")) oneStored =
        (.ok 0, after) ∧
        after.folder = oneStored.folder := by
  have hstored : (exec Session.people.file.load oneStored).1 =
      .ok [bare "a"] := by decide +kernel
  have hinsert :
      (exec (Session.people.insertMany [bare "b", bare "a"]) oneStored).1 =
      .error (.duplicateId (.string "a")) := by
    decide +kernel
  have hdelete : (exec (Session.people.deleteMany (bare "c")) oneStored).1 =
      .ok 0 := by
    decide +kernel
  obtain ⟨-, -, hmany, -, -, -, -, -, -, -, -, -, hidle⟩ :=
    failed_operations_write_nothing Session.people Session.epoch
  obtain ⟨world, hworld⟩ : ∃ world, oneStored = world := ⟨_, rfl⟩
  rw [hworld] at hstored hinsert hdelete ⊢
  refine ⟨hstored, ?_, ?_⟩
  · cases hrun : exec (Session.people.insertMany
        [bare "b", bare "a"]) world with
    | mk outcome after =>
        rw [hrun] at hinsert
        cases hinsert
        exact ⟨after, rfl, hmany _ world _ after hrun nofun⟩
  · cases hrun : exec (Session.people.deleteMany (bare "c")) world with
    | mk outcome after =>
        rw [hrun] at hdelete
        cases hdelete
        exact ⟨after, rfl, hidle _ world 0 after hrun rfl⟩

end DocumentStore
