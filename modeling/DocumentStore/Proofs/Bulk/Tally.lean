import DocumentStore.Proofs.Session
import DocumentStore.Proofs.Write.Renew

/-!
# What a bulk write counts

The counts of a bulk write that succeeds add up: what was inserted or brought
about, less what was deleted, is by how much the list of documents has grown.
For this it does not matter whether later operations find what earlier ones have
made, or whether places move in between, because each operation by itself
changes the length by what it counts.

`Tallies` is what the counts say of the operations done so far. One more
operation preserves it, and so does a whole run.
-/

namespace DocumentStore

variable {now : Instant} {c : Change} {filter doc id : Value}
  {docs : List Value}
  {batch after : Batch} {many upsert : Bool}

/-! ## Lengths -/

namespace Write

theorem length_of_insert (h : exec (insert doc) batch = (.ok id, after)) :
    after.docs.length = batch.docs.length + 1 := by
  rcases insert_cases doc batch with
    ⟨e, ids, hrun⟩ | ⟨given, made, ids, hrun, -⟩
  · rw [hrun] at h
    cases h
  · rw [hrun] at h
    cases h
    exact List.length_append

theorem length_of_bringAbout
    (h : exec (bringAbout now filter c) batch = (.ok id, after)) :
    after.docs.length = batch.docs.length + 1 := by
  rcases bringAbout_cases now filter c batch with
    ⟨e, ids, hrun⟩ | ⟨given, made, ids, hrun⟩
  · rw [hrun] at h
    cases h
  · rw [hrun] at h
    cases h
    exact List.length_append

/-- An update finds the documents that it modifies, and the list is one longer
if it brought a document about, which only happens if that is wanted. -/
theorem length_of_update {outcome : Outcome}
    (h : exec (update now filter c many upsert) batch = (.ok outcome, after)) :
    outcome.modified ≤ outcome.matched ∧
      after.docs.length = batch.docs.length + outcome.upsertedId.toList.length ∧
      (outcome.upsertedId ≠ none → upsert = true) := by
  rw [exec_update] at h
  cases hfound : places batch filter many with
  | error e =>
      rw [hfound] at h
      cases h
  | ok found =>
      rw [hfound] at h
      dsimp only at h
      rcases change_spec now c found batch with
        ⟨n, hle, hrun⟩ | ⟨done, place, rest, e, -, -, hrun⟩
      · rw [hrun] at h
        dsimp only at h
        split at h
        · next hnone =>
            rw [Bool.and_eq_true, List.isEmpty_iff] at hnone
            obtain ⟨hempty, hupsert⟩ := hnone
            obtain ⟨made, next, hmade, hpure⟩ := exec_bind_eq_ok.mp h
            have hlength := length_of_bringAbout hmade
            cases hpure
            rw [length_renew] at hlength
            rw [hempty] at hle
            exact ⟨hle, hlength, fun _ => hupsert⟩
        · cases h
          exact ⟨hle, length_renew _ _ _, fun hsome => absurd rfl hsome⟩
      · rw [hrun] at h
        cases h

theorem length_partitionAt (place : Nat) (chosen : List Nat) (items : List α) :
    (partitionAt place chosen items).2.length +
      (partitionAt place chosen items).1.length =
      items.length := by
  induction items generalizing place chosen with
  | nil => cases chosen <;> rfl
  | cons item rest ih =>
      cases chosen with
      | nil => rfl
      | cons first more =>
          rw [partitionAt]
          split
          · have hrest := ih (place + 1) more
            simp only [List.length_cons]
            omega
          · have hrest := ih (place + 1) (first :: more)
            simp only [List.length_cons]
            omega

/-- What a deletion takes away and what it leaves is what there was. -/
theorem length_of_delete {taken : List Value}
    (h : exec (delete filter many) batch = (.ok taken, after)) :
    after.docs.length + taken.length = batch.docs.length := by
  rw [exec_delete] at h
  split at h
  · cases h
  · split at h
    · cases h
      rfl
    · cases h
      exact length_partitionAt _ _ _

end Write

/-! ## Counts -/

namespace WriteModel

def isInsert : WriteModel → Bool
  | .insertOne _ => true
  | .updateOne .. | .updateMany .. | .replaceOne .. | .deleteOne _ |
      .deleteMany _ =>
      false

/-- The operation is to bring a document about if it finds none. -/
def mayUpsert : WriteModel → Bool
  | .updateOne _ _ upsert | .updateMany _ _ upsert | .replaceOne _ _ upsert =>
      upsert
  | .insertOne _ | .deleteOne _ | .deleteMany _ => false

end WriteModel

namespace Bulk

variable {models done rest : List WriteModel} {model : WriteModel}
  {before left : List Value}
  {counts : BulkCounts}

/-- At this place there is an operation that may bring a document about. -/
def UpsertAt (models : List WriteModel) (place : Nat) : Prop :=
  ∃ model, models[place]? = some model ∧ model.mayUpsert = true

theorem UpsertAt.lt {place : Nat} (h : UpsertAt models place) :
    place < models.length := by
  obtain ⟨model, hget, -⟩ := h
  exact (List.getElem?_eq_some_iff.mp hget).1

theorem UpsertAt.append {place : Nat} (h : UpsertAt done place)
    (rest : List WriteModel) :
    UpsertAt (done ++ rest) place := by
  obtain ⟨model, hget, hupsert⟩ := h
  have hlt := (List.getElem?_eq_some_iff.mp hget).1
  exact ⟨model, by rw [List.getElem?_append_left hlt, hget], hupsert⟩

/-- What the counts say of operations that have made the documents `left` of the
documents `before`. The places of documents brought about are listed in
ascending order, so that none is listed twice. -/
structure Tallies (models : List WriteModel) (before left : List Value)
    (counts : BulkCounts) : Prop where
  balance : left.length + counts.deleted =
    before.length + counts.inserted + counts.upserted
  modified_le : counts.modified ≤ counts.matched
  inserted_eq : counts.inserted = models.countP (·.isInsert)
  upserted_eq : counts.upsertedIds.length = counts.upserted
  ascending : (counts.upsertedIds.map (·.1)).Pairwise (· < ·)
  upserts : ∀ entry ∈ counts.upsertedIds, UpsertAt models entry.1

namespace Tallies

theorem nil (docs : List Value) : Tallies [] docs docs {} :=
  ⟨rfl, Nat.le_refl 0, rfl, rfl, List.Pairwise.nil, nofun⟩

theorem insert (h : Tallies done before batch.docs counts)
    (hmodel : model.isInsert = true)
    (hlength : after.docs.length = batch.docs.length + 1) :
    Tallies (done ++ [model]) before after.docs { counts with
      inserted := counts.inserted + 1 } := by
  obtain ⟨hbalance, hmodified, hinserted, hupserted, hascending, hupserts⟩ := h
  refine ⟨?_, hmodified, ?_, hupserted, hascending,
    fun entry hentry => (hupserts entry hentry).append _⟩
  · show after.docs.length + counts.deleted =
        before.length + (counts.inserted + 1) + counts.upserted
    omega
  · show counts.inserted + 1 = (done ++ [model]).countP (·.isInsert)
    rw [hinserted, List.countP_append, List.countP_singleton, if_pos hmodel]

theorem delete (h : Tallies done before batch.docs counts)
    (hmodel : model.isInsert = false) {taken : List Value}
    (hlength : after.docs.length + taken.length = batch.docs.length) :
    Tallies (done ++ [model]) before after.docs
      { counts with deleted := counts.deleted + taken.length } := by
  obtain ⟨hbalance, hmodified, hinserted, hupserted, hascending, hupserts⟩ := h
  refine ⟨?_, hmodified, ?_, hupserted, hascending,
    fun entry hentry => (hupserts entry hentry).append _⟩
  · show after.docs.length + (counts.deleted + taken.length) =
      before.length + counts.inserted + counts.upserted
    omega
  · show counts.inserted = (done ++ [model]).countP (·.isInsert)
    rw [hinserted, List.countP_append, List.countP_singleton,
      if_neg (by simp [hmodel]), Nat.add_zero]

theorem update (h : Tallies done before batch.docs counts)
    (hmodel : model.isInsert = false) {outcome : Write.Outcome}
    (hmodified : outcome.modified ≤ outcome.matched)
    (hlength : after.docs.length =
      batch.docs.length + outcome.upsertedId.toList.length)
    (hupsert : outcome.upsertedId ≠ none → model.mayUpsert = true) :
    Tallies (done ++ [model]) before after.docs
      (counts.addOutcome done.length outcome) := by
  obtain ⟨hbalance, hle, hinserted, hupserted, hascending, hupserts⟩ := h
  have hcount : counts.inserted = (done ++ [model]).countP (·.isInsert) := by
    rw [hinserted, List.countP_append, List.countP_singleton,
      if_neg (by simp [hmodel]), Nat.add_zero]
  have hkept : ∀ entry ∈ counts.upsertedIds,
      UpsertAt (done ++ [model]) entry.1 :=
    fun entry hentry => (hupserts entry hentry).append _
  have hsum : counts.modified + outcome.modified ≤
      counts.matched + outcome.matched :=
    Nat.add_le_add hle hmodified
  rw [BulkCounts.addOutcome]
  cases hid : outcome.upsertedId with
  | none =>
      rw [hid] at hlength
      have hsame : after.docs.length = batch.docs.length := hlength
      exact ⟨by rw [hsame]; exact hbalance, hsum, hcount, hupserted,
        hascending, hkept⟩
  | some id =>
      rw [hid] at hlength
      have hmore : after.docs.length = batch.docs.length + 1 := hlength
      have hhere : UpsertAt (done ++ [model]) done.length :=
        ⟨model, by simp, hupsert (by rw [hid]; exact Option.some_ne_none id)⟩
      refine ⟨?_, hsum, hcount, ?_, ?_, ?_⟩
      · show after.docs.length + counts.deleted =
          before.length + counts.inserted + (counts.upserted + 1)
        omega
      · show (counts.upsertedIds ++ [(done.length, id)]).length =
            counts.upserted + 1
        rw [List.length_append, hupserted, List.length_singleton]
      · show ((counts.upsertedIds ++ [(done.length, id)]).map (·.1)).Pairwise
            (· < ·)
        rw [List.map_append, List.pairwise_append]
        refine ⟨hascending, List.pairwise_singleton _ _, ?_⟩
        -- Every place listed so far is one of the operations done so far.
        intro place hplace last hlast
        obtain ⟨entry, hentry, rfl⟩ := List.mem_map.mp hplace
        rw [List.mem_singleton.mp hlast]
        exact (hupserts entry hentry).lt
      · intro entry hentry
        rcases List.mem_append.mp hentry with hentry | hentry
        · exact hkept entry hentry
        · rw [List.mem_singleton.mp hentry]
          exact hhere

end Tallies

variable {next last : BulkCounts}

theorem tallies_update (h : Tallies done before batch.docs counts)
    (hmodel : model.isInsert = false)
    (hupsert : upsert = true → model.mayUpsert = true)
    (hstep : exec (Write.update now filter c many upsert >>= fun outcome =>
      pure (counts.addOutcome done.length outcome)) batch = (.ok next, after)) :
    Tallies (done ++ [model]) before after.docs next := by
  obtain ⟨outcome, middle, hwrite, hpure⟩ := exec_bind_eq_ok.mp hstep
  cases hpure
  obtain ⟨hmodified, hlength, hwanted⟩ := Write.length_of_update hwrite
  exact h.update hmodel hmodified hlength fun hsome => hupsert (hwanted hsome)

theorem tallies_delete (h : Tallies done before batch.docs counts)
    (hmodel : model.isInsert = false)
    (hstep : exec (Write.delete filter many >>= fun taken =>
      pure { counts with deleted := counts.deleted + taken.length }) batch =
      (.ok next, after)) :
    Tallies (done ++ [model]) before after.docs next := by
  obtain ⟨taken, middle, hwrite, hpure⟩ := exec_bind_eq_ok.mp hstep
  cases hpure
  exact h.delete hmodel (Write.length_of_delete hwrite)

/-- One more operation. -/
theorem tallies_step (h : Tallies done before batch.docs counts)
    (hstep : exec (step now done.length counts model) batch =
      (.ok next, after)) :
    Tallies (done ++ [model]) before after.docs next := by
  cases model with
  | insertOne document =>
      obtain ⟨id, middle, hwrite, hpure⟩ := exec_bind_eq_ok.mp hstep
      cases hpure
      exact h.insert rfl (Write.length_of_insert hwrite)
  | updateOne filter spec upsert =>
      exact tallies_update h rfl (fun wanted => wanted) hstep
  | updateMany filter spec upsert =>
      exact tallies_update h rfl (fun wanted => wanted) hstep
  | replaceOne filter replacement upsert =>
      exact tallies_update h rfl (fun wanted => wanted) hstep
  | deleteOne filter => exact tallies_delete h rfl hstep
  | deleteMany filter => exact tallies_delete h rfl hstep

theorem tallies_runFrom (h : Tallies done before batch.docs counts)
    (hrun : exec (runFrom now done.length counts rest) batch =
      (.ok last, after)) :
    Tallies (done ++ rest) before after.docs last := by
  induction rest generalizing done batch counts with
  | nil =>
      cases hrun
      rwa [List.append_nil]
  | cons model rest ih =>
      obtain ⟨next, middle, hstep, hrest⟩ := exec_bind_eq_ok.mp hrun
      have hnext := tallies_step h hstep
      have hlength : done.length + 1 = (done ++ [model]).length := by
        rw [List.length_append, List.length_singleton]
      rw [hlength] at hrest
      have hlast := ih hnext hrest
      rwa [List.append_assoc, List.singleton_append] at hlast

/-- If a bulk write succeeds its counts say what it has done: the length of the
list balances, no more is modified than matched, the insertions are those among
the operations, and each document brought about is listed under the place of an
operation that was to do so. -/
theorem run_tallies {ids : IdSupply}
    (h : exec (run now models) (.ofDocs docs ids) = (.ok counts, after)) :
    Tallies models docs after.docs counts := by
  have hstart : Tallies [] docs (Batch.ofDocs docs ids).docs {} :=
    Tallies.nil docs
  exact tallies_runFrom hstart h

def twoDocs : List Value :=
  [.object [(idKey, .string "a")], .object [(idKey, .string "b")]]

/-- An operation of each kind. The second one brings a document about, the third
one finds it, and the fifth one deletes what the first one has inserted. -/
def sixKinds : List WriteModel :=
  [.insertOne (.object [(idKey, .string "c")]),
    .updateOne (.object [(idKey, .string "d")])
      (.object [("n", .ofInt 1)]) true,
    .updateMany (.object [("n", .ofInt 1)]) (.object [("n", .ofInt 2)]) false,
    .replaceOne (.object [(idKey, .string "a")]) (.object [("m", .null)]) true,
    .deleteOne (.object [(idKey, .string "c")]),
    .deleteMany (.object [(idKey, .string "b")])]

theorem run_tallies_sixKinds :
    ∃ counts after, exec (run Session.epoch sixKinds)
      (.ofDocs twoDocs Session.nowhere.ids) =
        (.ok counts, after) ∧
      counts = ⟨1, 2, 2, 2, 1, [(1, .string "d")]⟩ ∧
      Tallies sixKinds twoDocs after.docs counts := by
  have hok :
      (exec (run Session.epoch sixKinds)
        (.ofDocs twoDocs Session.nowhere.ids)).1 =
      .ok ⟨1, 2, 2, 2, 1, [(1, .string "d")]⟩ := by
    decide +kernel
  cases hrun : exec (run Session.epoch sixKinds)
    (.ofDocs twoDocs Session.nowhere.ids) with
  | mk outcome after =>
      rw [hrun] at hok
      cases hok
      exact ⟨_, after, rfl, rfl, run_tallies hrun⟩

end Bulk

end DocumentStore
