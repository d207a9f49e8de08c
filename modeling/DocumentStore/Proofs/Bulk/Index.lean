import DocumentStore.Proofs.Session
import DocumentStore.Proofs.Write.Sound

/-!
# The index along a bulk write

A bulk write builds the index of identifiers once and carries it from operation
to operation. An insertion enters the document that it adds, a deletion builds
the index anew, and a change of a document leaves it alone, so the index relies
on changes to carry identifiers over.

For identifiers that are strings they do. The documents may be of any kind
otherwise: two of them may have one identifier, and an identifier may be null or
no string. Only a document without an identifier has to be ruled out, for a
change may give it one of which the index knows nothing. This is what
`Batch.Indexed` says; every step of a write preserves it, and so does a whole
run.
-/

namespace DocumentStore

variable {now : Instant} {c : Change} {docs : List Value} {batch batch' : Batch}
  {doc changed id : Value} {place : Nat} {text : String}

/-- A well-formed document with an identifier of whatever kind, null among
them. -/
structure Value.HasId (doc : Value) : Prop where
  wellFormed : doc.WellFormed
  hasId : ∃ id, doc.field? idKey = some id

theorem Change.hasId_apply (hc : c.WellFormed) (hdoc : doc.HasId)
    (h : c.apply now doc = .ok changed) : changed.HasId := by
  obtain ⟨id, hid⟩ := hdoc.hasId
  obtain ⟨fields, -, hkept⟩ := Change.field?_apply hc hdoc.wellFormed hid h
  exact ⟨Change.wellFormed_apply hc hdoc.wellFormed h, _, hkept⟩

theorem IdIndex.lt_of_get?_build
    (h : Fields.get? text (IdIndex.build docs) = some place) :
    place < docs.length := by
  rw [IdIndex.exact_build IdIndex.AnyText docs text trivial] at h
  obtain ⟨hlt, -⟩ := List.findIdx?_eq_some_iff_getElem.mp h
  exact hlt

/-! ## The invariant -/

/-- Every document has an identifier, the index is exact for strings, and no
place to which it leads is past the end of the list. -/
structure Batch.Indexed (batch : Batch) : Prop where
  hasId : ∀ doc ∈ batch.docs, doc.HasId
  exact : IdIndex.Exact IdIndex.IsStringText batch.index batch.docs
  inBounds : ∀ text place, Fields.get? text batch.index = some place →
    place < batch.docs.length

namespace Batch.Indexed

theorem ofDocs (hdocs : ∀ doc ∈ docs, doc.HasId) (ids : IdSupply) :
    (Batch.ofDocs docs ids).Indexed :=
  ⟨hdocs, IdIndex.exact_build _ docs, fun _ _ => IdIndex.lt_of_get?_build⟩

theorem append (h : batch.Indexed) (hdoc : doc.HasId)
    (hid : doc.field? idKey = some id)
    (hnew : batch.index.contains id = false) :
    Batch.Indexed { batch with
      docs := batch.docs ++ [doc],
        index := batch.index.enter id batch.docs.length } := by
  refine ⟨?_, h.exact.enter hid fun _ => hnew, ?_⟩
  · intro d hd
    rcases List.mem_append.mp hd with hd | hd
    · exact h.hasId d hd
    · rw [List.mem_singleton.mp hd]
      exact hdoc
  · intro text place hplace
    dsimp only at hplace ⊢
    rw [List.length_append, List.length_singleton]
    rw [IdIndex.enter] at hplace
    by_cases htext : id.compact = text
    · subst htext
      rw [Fields.get?_insert_self, Option.some.injEq] at hplace
      omega
    · rw [Fields.get?_insert_of_ne htext] at hplace
      exact Nat.lt_succ_of_lt (h.inBounds text place hplace)

/-- The index is not touched, and the identifier of the document is the same
string as before if it was one. -/
theorem replace (h : batch.Indexed) (hc : c.WellFormed)
    (hget : batch.docs[place]? = some doc)
    (happly : c.apply now doc = .ok changed) :
    Batch.Indexed { batch with docs := batch.docs.set place changed } := by
  have hdoc := h.hasId doc (List.mem_of_getElem? hget)
  obtain ⟨id, hid⟩ := hdoc.hasId
  refine ⟨?_, h.exact.set hget ?_, ?_⟩
  · intro d hd
    rcases List.mem_or_eq_of_mem_set hd with hd | rfl
    · exact h.hasId d hd
    · exact Change.hasId_apply hc hdoc happly
  · rintro text ⟨s, rfl⟩
    rw [Value.idText?_eq_string_iff, Value.idText?_eq_string_iff]
    exact Change.field?_apply_eq_string_iff hc hdoc.wellFormed hid happly
  · intro text place hplace
    dsimp only
    rw [List.length_set]
    exact h.inBounds text place hplace

theorem delete {left : List Value} (h : batch.Indexed)
    (hsub : left.Sublist batch.docs) :
    Batch.Indexed { batch with docs := left, index := IdIndex.build left } :=
  ⟨fun doc hdoc => h.hasId doc (hsub.subset hdoc), IdIndex.exact_build _ left,
    fun _ _ => IdIndex.lt_of_get?_build⟩

theorem step (h : batch.Indexed) (hstep : batch.Step batch') :
    batch'.Indexed := by
  cases hstep with
  | supply ids => exact ⟨h.hasId, h.exact, h.inBounds⟩
  | append id doc hdoc hid hnull hnew =>
      exact h.append ⟨hdoc.wellFormed, id, hid⟩ hid hnew
  | replace now c place doc changed hc hget happly =>
      exact h.replace hc hget happly
  | delete left hsub => exact h.delete hsub

theorem steps (h : batch.Indexed) (hsteps : batch.Steps batch') :
    batch'.Indexed := by
  induction hsteps with
  | refl => exact h
  | tail _ hstep ih => exact ih.step hstep

theorem find?_string (h : batch.Indexed) (s : String) :
    batch.index.find? (.string s) =
      (IdIndex.build batch.docs).find? (.string s) := by
  have hbuild : IdIndex.Exact IdIndex.IsStringText
      (IdIndex.build batch.docs) batch.docs :=
    IdIndex.exact_build _ _
  rw [h.exact.find?_string, hbuild.find?_string]

end Batch.Indexed

/-! ## Along a bulk write -/

namespace Bulk

variable {models done rest : List WriteModel} {model : WriteModel}
  {ids : IdSupply}
  {counts : BulkCounts} {before : Batch}

theorem runFrom_append (now : Instant) (place : Nat) (counts : BulkCounts)
    (done rest : List WriteModel) : runFrom now place counts (done ++ rest) =
      runFrom now place counts done >>= fun reached =>
        runFrom now (place + done.length) reached rest := by
  induction done generalizing place counts with
  | nil =>
      rw [List.nil_append, runFrom, pure_bind, List.length_nil, Nat.add_zero]
  | cons model done ih =>
      rw [List.cons_append, runFrom, runFrom, bind_assoc]
      refine congrArg _ (funext fun next => ?_)
      rw [ih, List.length_cons, Nat.add_assoc, Nat.add_comm 1]

/-- In a bulk write on documents that all have identifiers, take the batch that
the operations before any of them leave, on which that operation and those after
it are run. Its index leads from each string to the first document with this
identifier, or nowhere if there is none, as an index that is built anew would.
Whatever it is asked for, it leads to no place past the end of the list. -/
theorem index_stays_exact (hdocs : ∀ doc ∈ docs, doc.HasId)
    (hmodels : ∀ model ∈ models, model.WellFormed)
    (hsplit : models = done ++ model :: rest)
    (hrun : exec (run now done) (.ofDocs docs ids) = (.ok counts, before)) :
    exec (run now models) (.ofDocs docs ids) =
        exec (runFrom now done.length counts (model :: rest)) before ∧
      (∀ s, before.index.find? (.string s) =
        before.docs.findIdx? fun doc => doc.field? idKey = some (.string s)) ∧
      (∀ s, before.index.find? (.string s) =
        (IdIndex.build before.docs).find? (.string s)) ∧
      ∀ id place, before.index.find? id = some place →
        place < before.docs.length := by
  subst hsplit
  have hdone : ∀ model ∈ done, model.WellFormed :=
    fun m hm => hmodels m (List.mem_append_left _ hm)
  have hsteps : (Batch.ofDocs docs ids).Steps
      (exec (run now done) (.ofDocs docs ids)).2 :=
    leads_run done hdone now (.ofDocs docs ids)
  rw [hrun] at hsteps
  have hindexed := (Batch.Indexed.ofDocs hdocs ids).steps hsteps
  refine ⟨?_, hindexed.exact.find?_string, hindexed.find?_string,
    fun id place => hindexed.inBounds id.compact place⟩
  rw [run] at hrun
  rw [run, runFrom_append, exec_bind, hrun, Nat.zero_add]

/-- Two documents with one identifier, and one whose identifier is null. -/
def repeatedId : List Value :=
  [.object [(idKey, .string "a"), ("n", .ofInt 1)],
    .object [(idKey, .string "a"), ("n", .ofInt 2)], .object [(idKey, .null)]]

/-- The first of the two goes, a document comes, and an update tries to give all
of them one identifier. -/
def threeWrites : List WriteModel :=
  [.deleteOne (.object [(idKey, .string "a")]),
    .insertOne (.object [(idKey, .string "b")]), .updateMany (.object [])
      (.object [("$set", .object [(idKey, .string "c"), ("n", .ofInt 3)])]) false]

def replaceSecond : WriteModel :=
  .replaceOne (.object [(idKey, .string "b")]) (.object [("m", .null)]) false

theorem index_stays_exact_repeatedId :
    (∀ doc ∈ repeatedId, doc.HasId) ∧
      (∀ model ∈ threeWrites ++ [replaceSecond], model.WellFormed) ∧
      ∃ counts before, exec (run Session.epoch threeWrites)
          (.ofDocs repeatedId Session.nowhere.ids) = (.ok counts, before) ∧
        before.docs.map (·.field? idKey) =
          [some (.string "a"), some .null, some (.string "b")] ∧
        (∀ s, before.index.find? (.string s) =
          before.docs.findIdx? fun doc => doc.field? idKey = some (.string s)) ∧
        (∀ s, before.index.find? (.string s) =
          (IdIndex.build before.docs).find? (.string s)) ∧
        ∀ id place, before.index.find? id = some place →
          place < before.docs.length := by
  have hdocs : ∀ doc ∈ repeatedId, doc.HasId := by
    intro doc hdoc
    simp only [repeatedId, List.mem_cons, List.not_mem_nil, or_false] at hdoc
    rcases hdoc with rfl | rfl | rfl
    · exact ⟨by simp [Value.WellFormed, Value.FieldsWellFormed, Fields.keys,
        Value.wellFormed_ofInt, idKey], _, rfl⟩
    · exact ⟨by simp [Value.WellFormed, Value.FieldsWellFormed, Fields.keys,
        Value.wellFormed_ofInt, idKey], _, rfl⟩
    · exact ⟨by simp [Value.WellFormed, Value.FieldsWellFormed, Fields.keys],
        _, rfl⟩
  have hmodels : ∀ model ∈ threeWrites ++ [replaceSecond],
      model.WellFormed := by
    simp [threeWrites, replaceSecond, WriteModel.WellFormed, Value.WellFormed,
      Value.FieldsWellFormed, Fields.keys, Value.wellFormed_ofInt, idKey]
  have hok :
      (exec (run Session.epoch threeWrites)
        (.ofDocs repeatedId Session.nowhere.ids)).1 =
      .ok { inserted := 1, matched := 3, modified := 3, deleted := 1 } := by
    decide +kernel
  have hids : (exec (run Session.epoch threeWrites)
      (.ofDocs repeatedId Session.nowhere.ids)).2.docs.map (·.field? idKey) =
        [some (.string "a"), some .null, some (.string "b")] := by
    decide +kernel
  cases hrun : exec (run Session.epoch threeWrites)
    (.ofDocs repeatedId Session.nowhere.ids) with
  | mk outcome before =>
      rw [hrun] at hok hids
      cases hok
      exact ⟨hdocs, hmodels, _, before, rfl, hids,
        (index_stays_exact hdocs hmodels rfl hrun).2⟩

end Bulk

end DocumentStore
