import DocumentStore.Aggregation
import DocumentStore.Proofs.Aggregation.Partition
import DocumentStore.Proofs.Run
import DocumentStore.Value.Identity

/-!
# What a group stage makes of documents

A group stage fails if the identifier of a document cannot be computed, or an
accumulator of a group. Otherwise it makes one document of each group, and
`group_eq_ok` says so without the loop: the groups are those of the partition,
and each accumulator looks at the documents of its group and at nothing else.

An accumulator that adds up ones counts, so what it gives for all groups adds up
to the number of documents.
-/

namespace DocumentStore.Aggregation

variable {docs : List Value} {groups : List Group} {grouping : Grouping}
  {doc expr : Value}
  {name : String}

/-! ## Results -/

theorem results_eq_ok {result : Value → Option Value}
    (h : ∀ doc ∈ docs, Expression.eval doc expr = .ok (result doc)) :
    results expr docs = .ok (docs.filterMap result) := by
  induction docs with
  | nil => rfl
  | cons doc rest ih =>
      obtain ⟨hdoc, hrest⟩ := List.forall_mem_cons.mp h
      rw [results, hdoc, ih hrest, List.filterMap_cons]
      cases result doc with
      | none => rfl
      | some v => rfl

/-- The result of an expression for a document, if there is one. -/
def resultOf (expr doc : Value) : Option Value :=
  match Expression.eval doc expr with
  | .ok result => result
  | .error _ => none

/-- The results that there are, in the order of the documents. -/
def resultsOf (expr : Value) (docs : List Value) : List Value :=
  docs.filterMap (resultOf expr)

theorem results_eq_resultsOf
    (h : ∀ doc ∈ docs, ∃ result, Expression.eval doc expr = .ok result) :
    results expr docs = .ok (resultsOf expr docs) := by
  refine results_eq_ok fun doc hdoc => ?_
  obtain ⟨result, hresult⟩ := h doc hdoc
  rw [resultOf, hresult]

/-! ## Making groups -/

/-- The identifier of the group of a document: the result of the expression, and
null without one. -/
def groupId (expr doc : Value) : Value :=
  match Expression.eval doc expr with
  | .ok id => id.getD .null
  | .error _ => .null

theorem groupInto_eq_ok {result : Grouping} :
    groupInto expr grouping docs = .ok result ↔
    (∀ doc ∈ docs, ∃ id, Expression.eval doc expr = .ok id) ∧
      result = docs.foldl (fun g doc => g.add (groupId expr doc) doc)
        grouping := by
  induction docs generalizing grouping with
  | nil =>
      rw [groupInto, List.foldl_nil]
      exact ⟨fun h => ⟨List.forall_mem_nil _, (Except.ok.inj h).symm⟩,
        fun h => congrArg _ h.2.symm⟩
  | cons doc rest ih =>
      rw [groupInto, bind_eq_ok, List.forall_mem_cons, List.foldl_cons]
      constructor
      · rintro ⟨id, hid, h⟩
        obtain ⟨hrest, hresult⟩ := ih.mp h
        rw [groupId, hid]
        exact ⟨⟨⟨id, rfl⟩, hrest⟩, hresult⟩
      · rintro ⟨⟨⟨id, hid⟩, hrest⟩, hresult⟩
        rw [groupId, hid] at hresult
        exact ⟨id, hid, ih.mpr ⟨hrest, hresult⟩⟩

/-- The document has the identifier of the group, and after it what each
accumulator makes of the documents of the group. -/
def Summarizes (accumulators : List (String × Accumulator)) (group : Group)
    (doc : Value) : Prop :=
  ∃ fields, doc = .object ((idKey, group.id) :: fields) ∧
    List.Forall₂ (fun entry field => field.1 = entry.1 ∧
        entry.2.compute group.docs = .ok field.2)
      accumulators fields

theorem accumulate_eq_ok {accumulators : List (String × Accumulator)}
    {fields : List (String × Value)} :
    accumulate docs accumulators = .ok fields ↔
      List.Forall₂ (fun entry field => field.1 = entry.1 ∧
          entry.2.compute docs = .ok field.2)
        accumulators fields := by
  induction accumulators generalizing fields with
  | nil =>
      rw [accumulate, List.forall₂_nil_left_iff]
      exact ⟨fun h => (Except.ok.inj h).symm, fun h => congrArg _ h.symm⟩
  | cons entry rest ih =>
      rw [accumulate, bind_eq_ok]
      constructor
      · rintro ⟨v, hv, h⟩
        obtain ⟨others, hothers, heq⟩ := bind_eq_ok.mp h
        cases heq
        exact .cons ⟨rfl, hv⟩ (ih.mp hothers)
      · intro h
        cases h with
        | @cons _ field _ others hfield hothers =>
            obtain ⟨name, v⟩ := field
            obtain ⟨rfl, hv⟩ := hfield
            exact ⟨v, hv, bind_eq_ok.mpr ⟨others, ih.mpr hothers, rfl⟩⟩

theorem document_eq_ok {accumulators : List (String × Accumulator)}
    {group : Group} :
    group.document accumulators = .ok doc ↔
      Summarizes accumulators group doc := by
  rw [Group.document, bind_eq_ok]
  constructor
  · rintro ⟨fields, hfields, heq⟩
    exact ⟨fields, (Except.ok.inj heq).symm, accumulate_eq_ok.mp hfields⟩
  · rintro ⟨fields, rfl, hfields⟩
    exact ⟨fields, accumulate_eq_ok.mpr hfields, rfl⟩

theorem group_eq_ok {accumulators : List (String × Accumulator)}
    {out : List Value} :
    group expr accumulators docs = .ok out ↔
      (∀ doc ∈ docs, ∃ id, Expression.eval doc expr = .ok id) ∧
        List.Forall₂ (Summarizes accumulators)
          (grouped (groupId expr) docs) out := by
  rw [group, bind_eq_ok]
  constructor
  · rintro ⟨grouping, hgrouping, h⟩
    obtain ⟨heval, rfl⟩ := groupInto_eq_ok.mp hgrouping
    exact ⟨heval, (mapM_eq_ok.mp h).imp fun _ _ => document_eq_ok.mp⟩
  · rintro ⟨heval, h⟩
    exact ⟨_, groupInto_eq_ok.mpr ⟨heval, rfl⟩,
      mapM_eq_ok.mpr (h.imp fun _ _ => document_eq_ok.mpr)⟩

/-- A pipeline has a result if all of its stages can be read and then have
one. -/
theorem aggregate_eq_ok {specs out : List Value} :
    aggregate docs (.array specs) = .ok out ↔
    ∃ stages,
      List.Forall₂ (fun spec stage => Stage.ofValue spec = .ok stage)
        specs stages ∧
      run stages docs = .ok out := by
  rw [aggregate, bind_eq_ok]
  exact exists_congr fun stages => and_congr_left' mapM_eq_ok

theorem run_singleton (stage : Stage) (docs : List Value) :
    run [stage] docs = stage.run docs := by
  rw [run, List.foldlM_cons]
  exact bind_pure _

theorem aggregate_singleton {spec : Value} {stage : Stage}
    (h : Stage.ofValue spec = .ok stage) (docs : List Value) :
    aggregate docs (.array [spec]) = stage.run docs := by
  rw [← run_singleton, aggregate, ofValue, List.mapM_cons, h]
  rfl

/-- The pipeline that groups, and does nothing else. -/
def groupBy (fields : List (String × Value)) : Value :=
  .array [.object [("$group", .object fields)]]

theorem aggregate_groupBy {fields : List (String × Value)} {out : List Value} :
    aggregate docs (groupBy fields) = .ok out ↔ ∃ expr accumulators,
      Fields.get? idKey fields = some expr ∧
        readAccumulators fields = .ok accumulators ∧
        group expr accumulators docs = .ok out := by
  have hread : Stage.ofValue (.object [("$group", .object fields)]) =
      (Fields.get? idKey fields).elim (.error (.aggregation .groupId))
        fun id => .group id <$> readAccumulators fields := by
    rw [Stage.ofValue, readStage, stageFields]
    dsimp only [bind, Except.bind]
    cases Fields.get? idKey fields with
    | none => rfl
    | some id => rfl
  rw [groupBy, aggregate_eq_ok]
  constructor
  · rintro ⟨stages, hstages, hrun⟩
    cases hstages with
    | @cons _ stage _ _ hstage hnil =>
        cases hnil
        rw [run_singleton] at hrun
        rw [hread] at hstage
        cases hid : Fields.get? idKey fields with
        | none =>
            rw [hid] at hstage
            cases hstage
        | some expr =>
            rw [hid] at hstage
            obtain ⟨accumulators, haccumulators, rfl⟩ := map_eq_ok.mp hstage
            exact ⟨expr, accumulators, rfl, haccumulators, hrun⟩
  · rintro ⟨expr, accumulators, hid, haccumulators, hgroup⟩
    have hstage : Stage.ofValue (.object [("$group", .object fields)]) =
        .ok (.group expr accumulators) := by
      rw [hread, hid, haccumulators]
      rfl
    exact ⟨[.group expr accumulators], .cons hstage .nil,
      (run_singleton _ _).trans hgroup⟩

/-! ## Counting -/

/-- The accumulator that counts. -/
def countSpec : Value := .object [("$sum", .ofInt 1)]

theorem get?_readAccumulators {fields : List (String × Value)} {spec : Value}
    {a : Accumulator} {accumulators : List (String × Accumulator)}
    (hname : name ≠ idKey) (h : readAccumulators fields = .ok accumulators)
    (hget : Fields.get? name fields = some spec)
    (hspec : readAccumulator name spec = .ok (some a)) :
    Fields.get? name accumulators = some a := by
  induction fields generalizing accumulators with
  | nil => cases hget
  | cons entry rest ih =>
      obtain ⟨field, first⟩ := entry
      rw [readAccumulators] at h
      rw [Fields.get?] at hget
      by_cases hfield : field = name
      · subst hfield
        rw [if_pos rfl, Option.some.injEq] at hget
        subst hget
        rw [if_neg hname] at h
        obtain ⟨read, hread, h⟩ := bind_eq_ok.mp h
        obtain ⟨others, -, heq⟩ := bind_eq_ok.mp h
        cases hspec.symm.trans hread
        cases heq
        rw [Fields.get?, if_pos rfl]
      · rw [if_neg hfield] at hget
        split at h
        · exact ih h hget
        · obtain ⟨read, -, h⟩ := bind_eq_ok.mp h
          obtain ⟨others, hothers, heq⟩ := bind_eq_ok.mp h
          cases read with
          -- An accumulator that is not known is left out.
          | none =>
              cases heq
              exact ih hothers hget
          | some b =>
              cases heq
              rw [Fields.get?, if_neg hfield]
              exact ih hothers hget

theorem Summarizes.field? {accumulators : List (String × Accumulator)}
    {group : Group} {a : Accumulator} (h : Summarizes accumulators group doc)
    (hname : name ≠ idKey) (hget : Fields.get? name accumulators = some a) :
    ∃ v, doc.field? name = some v ∧ a.compute group.docs = .ok v := by
  obtain ⟨fields, rfl, hfields⟩ := h
  rw [Value.field?, Fields.get?, if_neg hname.symm]
  induction hfields with
  | nil => cases hget
  | @cons entry field rest others hfield hothers ih =>
      obtain ⟨key, b⟩ := entry
      obtain ⟨_, v⟩ := field
      obtain ⟨rfl, hv⟩ := hfield
      rw [Fields.get?] at hget ⊢
      split at hget
      · next hkey =>
          cases hget
          rw [if_pos hkey]
          exact ⟨v, rfl, hv⟩
      · next hkey =>
          rw [if_neg hkey]
          exact ih hget

theorem compute_count (hlength : docs.length < 0x8000000000000000) :
    Accumulator.compute ⟨.sum, .ofInt 1⟩ docs = .ok (.ofNat docs.length) := by
  have hfits : FitsSigned (1 * docs.length) := by
    constructor <;> omega
  show Except.ok (times (.int 1) docs.length) = _
  rw [times]
  show Except.ok (if FitsSigned (1 * docs.length) then Value.ofInt
      (1 * docs.length) else _) = _
  rw [if_pos hfits, Int.one_mul]
  rfl

theorem map_field?_count {accumulators : List (String × Accumulator)}
    {out : List Value}
    (hout : List.Forall₂ (Summarizes accumulators) groups out)
    (hname : name ≠ idKey)
    (hread : Fields.get? name accumulators = some ⟨.sum, .ofInt 1⟩)
    (hsmall : ∀ group ∈ groups, group.docs.length < 0x8000000000000000) :
    out.map (·.field? name) = groups.map fun group =>
      some (.ofNat group.docs.length) := by
  induction hout with
  | nil => rfl
  | @cons group doc rest others hdoc hothers ih =>
      rw [List.forall_mem_cons] at hsmall
      obtain ⟨v, hfield, hv⟩ := hdoc.field? hname hread
      have hsize : v = .ofNat group.docs.length :=
        Except.ok.inj (hv.symm.trans (compute_count hsmall.1))
      rw [List.map_cons, List.map_cons, hfield, hsize, ih hsmall.2]

/-- Grouping splits the documents into the classes of those with one text and
makes one document of each class. An accumulator that counts gives the sizes of
the classes, and they add up to the number of documents, which in memory is
below the bound. -/
theorem groupBy_partitions {fields : List (String × Value)} {out : List Value}
    (h : aggregate docs (groupBy fields) = .ok out) :
    ∃ expr accumulators groups, Fields.get? idKey fields = some expr ∧
      readAccumulators fields = .ok accumulators ∧
      (∀ doc ∈ docs, ∃ id, Expression.eval doc expr = .ok id ∧
        groupId expr doc = id.getD .null) ∧
      Partitions (groupId expr) docs groups ∧
      List.Forall₂ (Summarizes accumulators) groups out ∧
      (groups.flatMap Group.docs).Perm docs ∧
      ∀ name, name ≠ idKey → Fields.get? name fields = some countSpec →
        docs.length < 0x8000000000000000 →
          out.map (·.field? name) =
            groups.map (fun group => some (.ofNat group.docs.length)) ∧
            (groups.map (·.docs.length)).foldr (· + ·) 0 = docs.length := by
  obtain ⟨expr, accumulators, hid, haccumulators, hgroup⟩ :=
    aggregate_groupBy.mp h
  obtain ⟨heval, hout⟩ := group_eq_ok.mp hgroup
  have hpartitions := partitions_grouped (groupId expr) docs
  refine ⟨expr, accumulators, _, hid, haccumulators, ?_, hpartitions, hout,
    hpartitions.perm, ?_⟩
  · intro doc hdoc
    obtain ⟨id, hid⟩ := heval doc hdoc
    exact ⟨id, hid, by rw [groupId, hid]⟩
  · intro name hname hcount hlength
    have hread : Fields.get? name accumulators = some ⟨.sum, .ofInt 1⟩ :=
      get?_readAccumulators hname haccumulators hcount rfl
    have hsmall : ∀ group ∈ grouped (groupId expr) docs,
        group.docs.length < 0x8000000000000000 := by
      intro group hgroup
      rw [hpartitions.members group hgroup]
      exact Nat.lt_of_le_of_lt (List.length_filter_le _ _) hlength
    refine ⟨map_field?_count hout hname hread hsmall, ?_⟩
    rw [← length_flatMap_docs, hpartitions.perm.length_eq]

/-- Documents of two kinds, and one that has none. -/
def kinds : List Value :=
  [.object [(idKey, .ofInt 1), ("kind", .string "a")],
    .object [(idKey, .ofInt 2)],
    .object [(idKey, .ofInt 3), ("kind", .string "b")],
    .object [(idKey, .ofInt 4), ("kind", .string "a")]]

def countKinds : List (String × Value) :=
  [(idKey, .string "$kind"), ("n", countSpec)]

def kindCounts : List Value :=
  [.object [(idKey, .string "a"), ("n", .ofInt 2)],
    .object [(idKey, .null), ("n", .ofInt 1)],
    .object [(idKey, .string "b"), ("n", .ofInt 1)]]

/-- The missing kind counts as null, and its group stands where its first
document does. -/
theorem groupBy_partitions_kinds :
    aggregate kinds (groupBy countKinds) = .ok kindCounts ∧ ∃ groups,
      Partitions (groupId (.string "$kind")) kinds groups ∧
        (groups.flatMap Group.docs).Perm kinds ∧
        kindCounts.map (·.field? "n") =
          groups.map (fun group => some (.ofNat group.docs.length)) ∧
        (groups.map (·.docs.length)).foldr (· + ·) 0 = 4 := by
  have hgroup : group (.string "$kind") [("n", ⟨.sum, .ofInt 1⟩)] kinds =
      .ok kindCounts := by
    -- Expressions are computed by a recursion that evaluation does not open.
    simp only [group, kinds, groupInto, Expression.eval]
    decide +kernel
  have hrun : aggregate kinds (groupBy countKinds) = .ok kindCounts :=
    aggregate_groupBy.mpr ⟨_, _, rfl, rfl, hgroup⟩
  obtain ⟨expr, _, groups, hexpr, -, -, hpartitions, -, hperm, hcounts⟩ :=
    groupBy_partitions hrun
  cases hexpr
  obtain ⟨hn, htotal⟩ := hcounts "n" (by decide) rfl (by decide)
  exact ⟨hrun, groups, hpartitions, hperm, hn, htotal⟩

end DocumentStore.Aggregation
