import DocumentStore.Proofs.Agreement
import DocumentStore.Proofs.Atomicity

/-!
# Searches as pipelines

A search that sorts, skips and limits is written call by call, or as a pipeline
of four stages. The two are read at different times: the search remembers what
is wrong with its filter, and reads the path that it sorts by only once it has
found the documents, while the pipeline is read as a whole before the collection
is. For a path that can be read and a direction that is not zero this makes no
difference. Both are then one operation (`Search.run`): they read the filter,
load the documents, and make the page of those that the filter finds.
-/

namespace DocumentStore

variable {filter clause : Value} {field : String} {path : Path}
  {direction : Number}
  {descending : Bool} {skipped limit : Nat} {docs : List Value}

/-! ## Arguments -/

theorem SortKey.exists_descending? (h : direction.isZero = false) :
    ∃ descending, SortKey.descending? (.number direction) =
      some descending := by
  rw [Number.isZero, beq_eq_false_iff_ne] at h
  rw [SortKey.descending?]
  rcases Int.lt_or_gt_of_ne h with hneg | hpos
  · have hnot : ¬ 0 < direction.units := by omega
    exact ⟨true, by simp [Number.isPositive, Number.isNegative, hneg, hnot]⟩
  · exact ⟨false, by simp [Number.isPositive, hpos]⟩

theorem Value.asNat?_ofNat {n : Nat} (h : n < 0x10000000000000000) :
    (Value.ofNat n).asNat? = some n := by
  have hfits : DocumentStore.Fits n := by omega
  rw [Value.ofNat, Value.ofInt, Number.ofInt?, dif_pos hfits]
  simp [Value.asNat?, Value.asNumber?, Number.asNat?]

/-! ## One operation -/

namespace Search

/-- The documents that a clause finds, sorted, and the page of them. -/
def page (clause : Value) (key : SortKey) (skipped limit : Nat)
    (docs : List Value) :
    Result (List Value) := do
  let found ← Filter.select clause docs
  .ok (((key.sort found).drop skipped).take limit)

/-- Read a filter, load the documents, and make the page. -/
def run (file : CollectionFile) (filter : Value) (key : SortKey)
    (skipped limit : Nat) : Store (List Value) := do
  let clause ← Store.ofResult (Filter.ofValue filter)
  let docs ← file.load
  Store.ofResult (page clause key skipped limit docs)

/-- The pipeline of four stages. -/
def pipeline (filter : Value) (field : String) (direction : Number)
    (skipped limit : Nat) : Value :=
  .array [.object [("$match", filter)],
    .object [("$sort", .object [(field, .number direction)])],
    .object [("$skip", .ofNat skipped)], .object [("$limit", .ofNat limit)]]

end Search

/-! ## Call by call -/

namespace Find

theorem apply_page (hpath : Path.parse field = .ok path) (docs : List Value) :
    Options.apply
        { sort := some ⟨field, descending⟩, skip := some skipped,
          limit := some limit } docs =
      .ok (((SortKey.sort ⟨path, descending⟩ docs).drop skipped).take limit) := by
  rw [Options.apply]
  dsimp only
  rw [SortSpec.sort, hpath]
  rfl

theorem sort_eq
    (hdescending : SortKey.descending? (.number direction) = some descending)
    (find : Find) : find.sort (.object [(field, .number direction)]) =
      find.sortBy ⟨field, descending⟩ := by
  rw [sort, SortSpec.ofValue, hdescending]

/-- A search that remembers no error loads the documents and makes the page. -/
theorem exec_page {find : Find} (hvalid : find.invalid = none)
    (hoptions : find.options =
      { sort := some ⟨field, descending⟩, skip := some skipped,
        limit := some limit })
    (hpath : Path.parse field = .ok path) (world : World) :
    exec find.run world = exec (do
      let docs ← find.file.load
      Store.ofResult (Search.page (.object find.filter)
        ⟨path, descending⟩ skipped limit docs))
      world := by
  rw [run, found, hvalid, hoptions, bind_assoc, exec_bind, exec_bind]
  split
  · rw [exec_bind, Store.ofResult, exec_mk, Store.ofResult, exec_mk,
        Search.page]
    cases Filter.select (.object find.filter) _ with
    | error e => rfl
    | ok found =>
        dsimp only
        rw [apply_page hpath]
        rfl
  · rfl

theorem exec_search {collection : Collection} {world : World}
    (hfilter : filter.WellFormed) (hpath : Path.parse field = .ok path)
    (hdescending : SortKey.descending? (.number direction) = some descending) :
    exec
      ((((collection.find filter).sort
          (.object [(field, .number direction)])).skip
        skipped).limit limit).run world =
      exec (Search.run collection.file filter ⟨path, descending⟩ skipped limit)
        world := by
  rw [sort_eq hdescending]
  cases filter with
  | object fields =>
      rw [Collection.find, narrow,
        Fields.merge_nil (Value.wellFormed_object_iff.mp hfilter).1]
      exact exec_page rfl rfl hpath world
  | null => exact exec_page rfl rfl hpath world
  | _ => rfl

end Find

/-! ## As a pipeline -/

namespace Aggregation

theorem ofValue_pipeline (hpath : Path.parse field = .ok path)
    (hdescending : SortKey.descending? (.number direction) = some descending)
    (hskipped : skipped < 0x10000000000000000)
    (hlimit : limit < 0x10000000000000000) :
    ofValue (Search.pipeline filter field direction skipped limit) =
      (fun clause => [.select clause, .sort [⟨path, descending⟩], .skip skipped,
          .limit limit]) <$>
        Filter.ofValue filter := by
  have hmatch : Stage.ofValue (.object [("$match", filter)]) =
      .select <$> Filter.ofValue filter := by
    rw [Stage.ofValue, readStage]
  have hkey : readSortKey (field, .number direction) =
      .ok ⟨path, descending⟩ := by
    rw [readSortKey, hdescending, hpath]
    rfl
  have hsort :
      Stage.ofValue (.object [("$sort", .object [(field, .number direction)])]) =
      .ok (.sort [⟨path, descending⟩]) := by
    rw [Stage.ofValue, readStage, stageFields]
    show Stage.sort <$> [(field, Value.number direction)].mapM readSortKey = _
    rw [List.mapM_cons, hkey]
    rfl
  have hskip : Stage.ofValue (.object [("$skip", .ofNat skipped)]) =
      .ok (.skip skipped) := by
    rw [Stage.ofValue, readStage, readCount, Value.asNat?_ofNat hskipped]
    rfl
  have htake : Stage.ofValue (.object [("$limit", .ofNat limit)]) =
      .ok (.limit limit) := by
    rw [Stage.ofValue, readStage, readCount, Value.asNat?_ofNat hlimit]
    rfl
  rw [Search.pipeline, ofValue, List.mapM_cons, List.mapM_cons, List.mapM_cons,
    List.mapM_cons, hmatch, hsort, hskip, htake]
  cases Filter.ofValue filter with
  | error e => rfl
  | ok clause => rfl

theorem run_search (docs : List Value) (key : SortKey) :
    run [.select clause, .sort [key], .skip skipped, .limit limit] docs =
      Search.page clause key skipped limit docs := by
  rw [run, List.foldlM_cons, Search.page, Stage.run]
  cases Filter.select clause docs with
  | error e => rfl
  | ok found => rfl

end Aggregation

/-- A search that filters, sorts by one field, skips and limits gives what the
pipeline of these four stages gives: the same documents in the same order, or
the same error. -/
theorem find_eq_aggregate (collection : Collection) (world : World)
    (hfilter : filter.WellFormed) (hpath : Path.parse field = .ok path)
    (hdirection : direction.isZero = false)
    (hskipped : skipped < 0x10000000000000000)
    (hlimit : limit < 0x10000000000000000) :
    exec
      ((((collection.find filter).sort
          (.object [(field, .number direction)])).skip
        skipped).limit limit).run world =
      exec (collection.aggregate
        (Search.pipeline filter field direction skipped limit)) world := by
  obtain ⟨descending, hdescending⟩ := SortKey.exists_descending? hdirection
  rw [Find.exec_search hfilter hpath hdescending, Collection.aggregate,
    Aggregation.ofValue_pipeline hpath hdescending hskipped hlimit, Search.run]
  cases Filter.ofValue filter with
  | error e => rfl
  | ok clause =>
      show _ = exec (do
        let docs ← collection.file.load
        Store.ofResult (Aggregation.run
          [.select clause, .sort [⟨path, descending⟩], .skip skipped,
            .limit limit] docs)) world
      simp only [Aggregation.run_search]
      rfl

/-- A world in which two documents are stored. -/
def twoStored : World :=
  (exec (Session.people.insertMany [bare "a", bare "b"]) Session.nowhere).2

/-- The last document by identifier. -/
theorem find_eq_aggregate_twoStored :
    (exec Session.people.file.load twoStored).1 = .ok [bare "a", bare "b"] ∧
      ((Value.object []).WellFormed ∧ Path.parse idKey =
          .ok ⟨[.key idKey], by simp⟩ ∧
        (Number.int (-1)).isZero = false) ∧
      exec ((((Session.people.find (.object [])).sort
          (.object [(idKey, .number (.int (-1)))])).skip 0).limit 1).run
          twoStored =
        exec (Session.people.aggregate
            (Search.pipeline (.object []) idKey (.int (-1)) 0 1))
          twoStored := by
  have hdirection : (Number.int (-1)).isZero = false := by decide +kernel
  exact ⟨by decide +kernel,
    ⟨Value.wellFormed_emptyObject, Filter.parse_idKey, hdirection⟩,
    find_eq_aggregate Session.people twoStored Value.wellFormed_emptyObject
      Filter.parse_idKey
      hdirection (by decide) (by decide)⟩

end DocumentStore
