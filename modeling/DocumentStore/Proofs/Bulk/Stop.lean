import DocumentStore.Proofs.Session
import DocumentStore.Proofs.Write.Renew

/-!
# Where a bulk write stops

A bulk write that fails has run the operations before the one that failed, and
none of those after it. What has the failing operation itself done by then? It
looks for its documents before it changes any of them, and it adds a document
only as the last thing that it does. So it leaves the documents as it found
them, with one exception: an operation that changes many documents may fail at
one of them, and those before it are changed by then. Nothing takes this back.
-/

namespace DocumentStore

variable {now : Instant} {c : Change} {filter doc : Value} {docs : List Value}
  {e : Error}
  {batch after : Batch} {many upsert : Bool} {models : List WriteModel}

/-! ## What a write that fails leaves -/

namespace Write

theorem docs_of_insert_error (h : exec (insert doc) batch = (.error e, after)) :
    after.docs = batch.docs := by
  rcases insert_cases doc batch with
    ⟨fault, ids, hrun⟩ | ⟨id, made, ids, hrun, -⟩
  · rw [hrun] at h
    cases h
    rfl
  · rw [hrun] at h
    cases h

theorem docs_of_bringAbout_error
    (h : exec (bringAbout now filter c) batch = (.error e, after)) :
    after.docs = batch.docs := by
  rcases bringAbout_cases now filter c batch with
    ⟨fault, ids, hrun⟩ | ⟨id, made, ids, hrun⟩
  · rw [hrun] at h
    cases h
    rfl
  · rw [hrun] at h
    cases h

theorem docs_of_delete_error
    (h : exec (delete filter many) batch = (.error e, after)) :
    after.docs = batch.docs := by
  rw [exec_delete] at h
  split at h
  · cases h
    rfl
  · split at h
    · cases h
    · cases h

/-- The filter finds documents, the change fails at one of them with this error,
and of those before it the new versions are left. -/
def StopsAt (now : Instant) (c : Change) (filter : Value) (many : Bool)
    (batch : Batch) (e : Error) (left : List Value) : Prop :=
  ∃ done place rest doc, places batch filter many =
    .ok (done ++ place :: rest) ∧
    batch.docs[place]? = some doc ∧ c.apply now doc = .error e ∧
    left = renew (c.version now) done batch.docs

/-- An update that fails while it looks for documents or brings one about leaves
them alone. -/
theorem docs_of_update_error
    (h : exec (update now filter c many upsert) batch = (.error e, after)) :
    after.docs = batch.docs ∨ StopsAt now c filter many batch e after.docs := by
  rw [exec_update] at h
  cases hfound : places batch filter many with
  | error fault =>
      rw [hfound] at h
      cases h
      exact .inl rfl
  | ok found =>
      rw [hfound] at h
      dsimp only at h
      rcases change_spec now c found batch with
        ⟨n, -, hrun⟩ | ⟨done, place, rest, fault, hsplit, hfails, hrun⟩
      · rw [hrun] at h
        dsimp only at h
        split at h
        · next hnone =>
            -- Nothing was found, so there was nothing to renew.
            have hempty : found = [] := by
              rw [Bool.and_eq_true, List.isEmpty_iff] at hnone
              exact hnone.1
            rcases exec_bind_eq_error.mp h with hmade | ⟨id, next, -, hpure⟩
            · rw [hempty] at hmade
              exact .inl (docs_of_bringAbout_error hmade)
            · cases hpure
        · cases h
      · rw [hrun] at h
        cases h
        rw [hsplit] at hfound
        -- The place is none of those before it, so its document is still the
        -- one found.
        have hnodup := nodup_places hfound
        have hplace : place ∉ done := fun hmem =>
          (List.nodup_append.mp hnodup).2.2 place hmem place
            List.mem_cons_self rfl
        have hdone : done.Nodup := (List.nodup_append.mp hnodup).1
        rw [getElem?_renew hdone, if_neg hplace,
          Option.map_eq_some_iff] at hfails
        obtain ⟨doc, hdoc, happly⟩ := hfails
        exact .inr ⟨done, place, rest, doc, hfound, hdoc, happly, rfl⟩

/-- If only one document is to be changed there is none before it. -/
theorem docs_of_updateFirst_error
    (h : exec (update now filter c false upsert) batch = (.error e, after)) :
    after.docs = batch.docs := by
  rcases docs_of_update_error h with
    hsame | ⟨done, place, rest, doc, hfound, -, -, hleft⟩
  · exact hsame
  · rcases firstPlace_cases hfound with hnone | ⟨first, hfirst⟩
    · cases done <;> cases hnone
    · cases done with
      | nil => exact hleft
      | cons earlier more =>
          cases more <;> cases hfirst

end Write

/-! ## What a bulk write that fails leaves -/

namespace Bulk

open Write

theorem docs_of_step_error {model : WriteModel} {place : Nat}
    {counts : BulkCounts}
    (h : exec (step now place counts model) batch = (.error e, after)) :
    after.docs = batch.docs ∨ ∃ filter spec upsert, model =
      .updateMany filter spec upsert ∧
      StopsAt now (.update spec) filter true batch e after.docs := by
  -- Counting comes last and cannot fail, so it is the write that has failed.
  have hwrite : ∀ {α : Type} {w : Write α} {count : α → BulkCounts},
      exec (w >>= fun a => pure (count a)) batch = (.error e, after) →
        exec w batch = (.error e, after) := by
    intro α w count h
    rcases exec_bind_eq_error.mp h with hw | ⟨a, next, -, hpure⟩
    · exact hw
    · cases hpure
  cases model with
  | insertOne document => exact .inl (docs_of_insert_error (hwrite h))
  | updateOne filter spec upsert =>
      exact .inl (docs_of_updateFirst_error (hwrite h))
  | updateMany filter spec upsert =>
      exact (docs_of_update_error (hwrite h)).imp_right fun hstops =>
        ⟨filter, spec, upsert, rfl, hstops⟩
  | replaceOne filter replacement upsert =>
      exact .inl (docs_of_updateFirst_error (hwrite h))
  | deleteOne filter => exact .inl (docs_of_delete_error (hwrite h))
  | deleteMany filter => exact .inl (docs_of_delete_error (hwrite h))

/-- Operations that fail split at the one that does. -/
theorem runFrom_eq_error {place : Nat} {counts : BulkCounts}
    (h : exec (runFrom now place counts models) batch = (.error e, after)) :
    ∃ done model rest reached before, models = done ++ model :: rest ∧
      exec (runFrom now place counts done) batch = (.ok reached, before) ∧
      exec (step now (place + done.length) reached model) before =
        (.error e, after) := by
  induction models generalizing place counts batch with
  | nil => cases h
  | cons model rest ih =>
      rcases exec_bind_eq_error.mp h with hstep | ⟨next, middle, hstep, hrest⟩
      · exact ⟨[], model, rest, counts, batch, rfl, rfl, hstep⟩
      · obtain ⟨done, failing, more, reached, before, hsplit, hdone, hfails⟩ :=
          ih hrest
        refine ⟨model :: done, failing, more, reached, before,
          congrArg _ hsplit, ?_, ?_⟩
        · exact exec_bind_eq_ok.mpr ⟨next, middle, hstep, hdone⟩
        · rwa [List.length_cons, Nat.add_comm done.length 1, ← Nat.add_assoc]

/-- A bulk write that stops with an error leaves the documents that the
operations before the failing one alone leave. Only one that updates many
documents can have done more: if it fails at a document that it found, it has
changed those found before this one. -/
theorem run_stops {ids : IdSupply}
    (h : exec (run now models) (.ofDocs docs ids) = (.error e, after)) :
    ∃ done model rest counts before, models = done ++ model :: rest ∧
      exec (run now done) (.ofDocs docs ids) = (.ok counts, before) ∧
      exec (step now done.length counts model) before = (.error e, after) ∧
      (after.docs = before.docs ∨
          ∃ filter spec upsert, model = .updateMany filter spec upsert ∧
        StopsAt now (.update spec) filter true before e after.docs) := by
  obtain ⟨done, model, rest, counts, before, hsplit, hdone, hfails⟩ :=
    runFrom_eq_error h
  rw [Nat.zero_add] at hfails
  exact ⟨done, model, rest, counts, before, hsplit, hdone, hfails,
    docs_of_step_error hfails⟩

/-- Two documents, of which only the first one has a number to be raised. -/
def halfNumbered : Batch :=
  .ofDocs [.object [(idKey, .string "a"), ("n", .ofInt 1)],
    .object [(idKey, .string "b"), ("n", .string "x")]] Session.nowhere.ids

def insertThird : WriteModel :=
  .insertOne (.object [(idKey, .string "c"), ("n", .ofInt 2)])

def raiseAll : WriteModel :=
  .updateMany (.object []) (.object [("$inc", .object [("n", .ofInt 1)])]) false

/-- The second operation fails at the second document, and the first document
has been changed by it. -/
theorem run_stops_halfway :
    (exec (run Session.epoch [insertThird, raiseAll]) halfNumbered).1 =
        .error (.typeMismatch (.notNumeric "$inc" "n" (.string "x"))) ∧
      (exec (run Session.epoch [insertThird]) halfNumbered).1 =
        .ok { inserted := 1 } ∧
      (exec (run Session.epoch [insertThird, raiseAll]) halfNumbered).2.docs ≠
        (exec (run Session.epoch [insertThird]) halfNumbered).2.docs := by
  decide +kernel

theorem run_stops_raiseAll :
    ∃ e after, exec (run Session.epoch [insertThird, raiseAll]) halfNumbered =
      (.error e, after) ∧
      ∃ done model rest counts before,
        [insertThird, raiseAll] = done ++ model :: rest ∧
        exec (run Session.epoch done) halfNumbered = (.ok counts, before) ∧
        exec (step Session.epoch done.length counts model) before =
          (.error e, after) ∧
        (after.docs = before.docs ∨
            ∃ filter spec upsert, model = .updateMany filter spec upsert ∧
          StopsAt Session.epoch (.update spec) filter true before e
            after.docs) := by
  have herror :
      (exec (run Session.epoch [insertThird, raiseAll]) halfNumbered).1 =
      .error (.typeMismatch (.notNumeric "$inc" "n" (.string "x"))) := by
    decide +kernel
  cases hrun : exec (run Session.epoch [insertThird, raiseAll])
    halfNumbered with
  | mk outcome after =>
      rw [hrun] at herror
      cases herror
      exact ⟨_, after, rfl, run_stops hrun⟩

end Bulk

end DocumentStore
