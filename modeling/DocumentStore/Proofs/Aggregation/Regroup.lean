import DocumentStore.Proofs.Aggregation.Group
import DocumentStore.Proofs.IdIndex
import DocumentStore.Proofs.Path.Single

/-!
# Arrays taken apart and put together

One stage makes a document for each element of an array, and another one
collects the elements of all documents with one identifier. In between stands
one block of documents for each document, with its identifier, and if the
identifiers have different texts these blocks are the groups: they fall into
them without a look at how groups are made, for the blocks partition what is
there (`partitions_flatMap`) and there is only one partition.

What is lost is a document whose array is empty, for its block is empty. What
changes is a document without an array: a value becomes an array of one element,
and where none is there stands an empty array.
-/

namespace DocumentStore.Aggregation

variable {f : String} {path : Path} {doc expr : Value} {docs : List Value}
  {groups : List Group}
  {fields : List (String × Value)}

/-! ## Blocks -/

section Blocks

variable {id key : Value → Value} {block : Value → List Value} {v : Value}
  {items rest : List Value}

theorem eraseDups_block {t : String} {texts others : List String}
    (hne : texts ≠ []) (htexts : ∀ text ∈ texts, text = t)
    (hothers : t ∉ others) :
    (texts ++ others).eraseDups = t :: others.eraseDups := by
  cases texts with
  | nil => exact absurd rfl hne
  | cons text more =>
      obtain ⟨rfl, hmore⟩ := List.forall_mem_cons.mp htexts
      have hnone : (more.filter fun other => !other == text) = [] := by
        rw [List.filter_eq_nil_iff]
        intro other hother
        simp [hmore other hother]
      have hall : (others.filter fun other => !other == text) = others := by
        rw [List.filter_eq_self]
        intro other hother
        have hne : other ≠ text := fun heq => hothers (heq ▸ hother)
        simp [hne]
      rw [List.cons_append, List.eraseDups_cons, List.filter_append, hnone,
        hall, List.nil_append]

/-- A block of documents with one new identifier is a group before the
others. -/
theorem Partitions.cons (h : Partitions id rest groups) (hne : items ≠ [])
    (hitems : ∀ item ∈ items, id item = v)
    (hnew : v.compact ∉ groups.map Group.text) :
    Partitions id (items ++ rest) (⟨v, items⟩ :: groups) := by
  have htexts : ∀ text ∈ items.map fun item => (id item).compact,
      text = v.compact := by
    intro text htext
    obtain ⟨item, hitem, rfl⟩ := List.mem_map.mp htext
    rw [hitems item hitem]
  have hrest : v.compact ∉ rest.map fun doc => (id doc).compact := fun hmem =>
    hnew (h.mem_iff.mpr hmem)
  refine ⟨List.nodup_cons.mpr ⟨hnew, h.distinct⟩, ?_, ?_, ?_⟩
  · rw [List.map_append,
        eraseDups_block (by simpa using hne) htexts hrest, ← h.order]
    rfl
  · intro group hgroup
    rw [List.filter_append]
    rcases List.mem_cons.mp hgroup with rfl | hgroup
    · have hall : (items.filter fun item => (id item).compact = v.compact) =
          items := by
        rw [List.filter_eq_self]
        exact fun item hitem => decide_eq_true (congrArg _ (hitems item hitem))
      show items = _ ++ _
      rw [Group.text, hall, filter_text_eq_nil hrest, List.append_nil]
    · have hother : group.text ∉ items.map fun item => (id item).compact :=
        fun hmem =>
        hnew (List.mem_map.mpr ⟨group, hgroup, htexts _ hmem⟩)
      rw [filter_text_eq_nil hother, List.nil_append]
      exact h.members group hgroup
  · intro group hgroup
    rcases List.mem_cons.mp hgroup with rfl | hgroup
    · cases items with
      | nil => exact absurd rfl hne
      | cons item more => exact congrArg some (hitems item List.mem_cons_self)
    · exact h.first group hgroup

/-- The group that the block of a document is, if there is anything in it. -/
def blockGroup (key : Value → Value) (block : Value → List Value)
    (doc : Value) : Option Group :=
  if block doc = [] then none else some ⟨key doc, block doc⟩

/-- Blocks of different identifiers are the groups of their documents. -/
theorem partitions_flatMap
    (hkey : ∀ doc ∈ docs, ∀ item ∈ block doc, id item = key doc)
    (hapart : docs.Pairwise fun a b => (key a).compact ≠ (key b).compact) :
    Partitions id (docs.flatMap block)
      (docs.filterMap (blockGroup key block)) := by
  induction docs with
  | nil => exact ⟨List.nodup_nil, rfl, nofun, nofun⟩
  | cons doc rest ih =>
      obtain ⟨hdoc, hrest⟩ := List.forall_mem_cons.mp hkey
      obtain ⟨hother, hothers⟩ := List.pairwise_cons.mp hapart
      have hgroups := ih hrest hothers
      rw [List.flatMap_cons, List.filterMap_cons, blockGroup]
      by_cases hempty : block doc = []
      · rw [if_pos hempty, hempty]
        exact hgroups
      · rw [if_neg hempty]
        refine hgroups.cons hempty hdoc fun hmem => ?_
        obtain ⟨item, hitem, htext⟩ := List.mem_map.mp (hgroups.mem_iff.mp hmem)
        obtain ⟨other, hmem, hitem⟩ := List.mem_flatMap.mp hitem
        rw [hrest other hmem item hitem] at htext
        exact hother other hmem htext.symm

end Blocks

/-! ## Unwinding -/

/-- The block of documents that a document becomes: one for each element of the
array in a field, and without an array the document itself. -/
def unwound (f : String) (doc : Value) : List Value :=
  match doc with
  | .object fields =>
      match Fields.get? f fields with
      | some (.array items) =>
          items.map fun item => .object (Fields.insert f item fields)
      | _ => [doc]
  | _ => [doc]

theorem unwind_eq (hf : Path.IsSingle f) (hpath : Path.parse f = .ok path)
    (fields : List (String × Value)) :
    unwind path false (.object fields) = .ok (unwound f (.object fields)) := by
  rw [unwind, unwound, Path.get_of_isSingle hf hpath]
  cases Fields.get? f fields with
  | none => rfl
  | some v =>
      cases v with
      | array items =>
          cases items with
          | nil => rfl
          | cons item rest =>
              refine mapM_eq_ok.mpr
                (List.forall₂_map_right_iff.mpr (List.forall₂_same.mpr ?_))
              exact fun item _ => Path.set_of_isSingle hf hpath item fields
      | _ => rfl

/-- Unwinding a field leaves all others alone. -/
theorem exists_fields_of_mem_unwound {item : Value}
    (h : item ∈ unwound f (.object fields)) :
    ∃ others, item = .object others ∧
      ∀ name, f ≠ name → Fields.get? name others = Fields.get? name fields := by
  rw [unwound] at h
  split at h
  · obtain ⟨element, -, rfl⟩ := List.mem_map.mp h
    exact ⟨_, rfl, fun name hname => Fields.get?_insert_of_ne hname⟩
  · exact ⟨fields, List.mem_singleton.mp h, fun name _ => rfl⟩

/-- What is collected from a field that was unwound. Nothing is left of an empty
array, not even the document. -/
def collected : Option Value → Option (List Value)
  | some (.array []) => none
  | some (.array items) => some items
  | some v => some [v]
  | none => some []

theorem collected_eq (f : String) (fields : List (String × Value)) :
    collected (Fields.get? f fields) =
      if unwound f (.object fields) = [] then none
      else some ((unwound f (.object fields)).filterMap (·.field? f)) := by
  have hkept : ∀ items : List Value, (items.map fun item =>
      Value.object (Fields.insert f item fields)).filterMap (·.field? f) =
      items := by
    intro items
    rw [List.filterMap_map]
    refine (List.filterMap_congr fun item _ => ?_).trans List.filterMap_some
    exact Fields.get?_insert_self f item fields
  have hself : (Value.object fields).field? f = Fields.get? f fields := rfl
  rw [unwound]
  cases hget : Fields.get? f fields with
  | none => simp [collected, hself, hget]
  | some v =>
      cases v with
      | array items =>
          dsimp only
          rw [hkept]
          cases items with
          | nil => rfl
          | cons item rest => rfl
      | _ => simp [collected, hself, hget]

/-! ## References -/

theorem toList_reference (f : String) :
    ("$" ++ f).toList = '$' :: f.toList := by
  rw [String.toList_append]
  rfl

theorem readReference_eq (stage f : String) :
    readReference stage ("$" ++ f) = Path.parse f := by
  rw [readReference, toList_reference]
  show Path.parse (String.ofList f.toList) = _
  rw [String.ofList_toList]

theorem eval_reference (hne : f ≠ "") (hf : Path.IsSingle f)
    (fields : List (String × Value)) :
    Expression.eval (.object fields) (.string ("$" ++ f)) =
      .ok (Fields.get? f fields) := by
  rw [Expression.eval, Expression.ofText, toList_reference]
  cases hlist : f.toList with
  | nil => exact absurd (String.toList_eq_nil_iff.mp hlist) hne
  | cons first rest =>
      obtain ⟨path, hpath⟩ :=
        Path.exists_parse_of_isSingle hf (hlist ▸ List.cons_ne_nil first rest)
      show (Path.parse (String.ofList (first :: rest)) >>= fun path => _) = _
      rw [← hlist, String.ofList_toList, hpath]
      exact congrArg Except.ok (Path.get_of_isSingle hf hpath fields)

/-! ## Both stages -/

/-- The accumulator that collects a field. -/
def collector (f : String) : Accumulator := ⟨.push, .string ("$" ++ f)⟩

/-- The pipeline that unwinds a field and collects it again. -/
def regroup (f : String) : Value :=
  .array [.object [("$unwind", .string ("$" ++ f))],
    .object [("$group", .object [(idKey, .string "$_id"),
      (f, .object [("$push", .string ("$" ++ f))])])]]

/-- The document with its identifier and what is collected from a field. -/
def restored (f : String) (doc : Value) : Option Value := do
  let id ← doc.field? idKey
  let items ← collected (doc.field? f)
  some (.object [(idKey, id), (f, .array items)])

theorem ofValue_regroup (hid : f ≠ idKey) (hpath : Path.parse f = .ok path) :
    List.Forall₂ (fun spec stage => Stage.ofValue spec = .ok stage)
      [.object [("$unwind", .string ("$" ++ f))],
        .object [("$group", .object [(idKey, .string "$_id"),
          (f, .object [("$push", .string ("$" ++ f))])])]]
      [.unwind path false, .group (.string "$_id") [(f, collector f)]] := by
  have hunwind : Stage.ofValue (.object [("$unwind", .string ("$" ++ f))]) =
      .ok (.unwind path false) := by
    show (readReference "$unwind" ("$" ++ f) >>= fun path => _) = _
    rw [readReference_eq, hpath]
    rfl
  have hread : readAccumulators [(idKey, .string "$_id"),
      (f, .object [("$push", .string ("$" ++ f))])] =
      .ok [(f, collector f)] := by
    rw [readAccumulators, if_pos rfl, readAccumulators, if_neg hid]
    rfl
  have hgroup :
      Stage.ofValue
        (.object
          [("$group", .object [(idKey, .string "$_id"),
            (f, .object [("$push", .string ("$" ++ f))])])]) =
      .ok (.group (.string "$_id") [(f, collector f)]) := by
    show Stage.group (.string "$_id") <$> readAccumulators _ = _
    rw [hread]
    rfl
  exact .cons hunwind (.cons hgroup .nil)

/-- What is collected of the block of a document makes the document that is
restored. -/
theorem rel_restored (hne : f ≠ "") (hf : Path.IsSingle f)
    (h : ∃ id, doc.field? idKey = some id) :
    Option.Rel (Summarizes [(f, collector f)])
      (blockGroup (fun doc => (doc.field? idKey).getD .null) (unwound f) doc)
        (restored f doc) := by
  obtain ⟨id, hid⟩ := h
  cases doc with
  | object fields =>
      have hrestored : restored f (.object fields) =
          (collected (Fields.get? f fields)).map
          fun items => .object [(idKey, id), (f, .array items)] := by
        rw [restored, hid]
        show ((collected (Fields.get? f fields)).bind fun items => _) = _
        cases collected (Fields.get? f fields) with
        | none => rfl
        | some items => rfl
      rw [hrestored, collected_eq, blockGroup, hid]
      split
      · exact .none
      · have heval : ∀ item ∈ unwound f (.object fields),
            Expression.eval item (.string ("$" ++ f)) =
              .ok (item.field? f) := by
          intro item hitem
          obtain ⟨others, rfl, -⟩ := exists_fields_of_mem_unwound hitem
          exact eval_reference hne hf others
        refine .some ⟨_, rfl, .cons ⟨rfl, ?_⟩ .nil⟩
        show Value.array <$> results (.string ("$" ++ f))
            (unwound f (.object fields)) = _
        rw [results_eq_ok heval]
        rfl
  | _ => cases hid

theorem forall₂_filterMap {R : α → β → Prop} {g : γ → Option α}
    {h : γ → Option β} {items : List γ}
    (hrel : ∀ item ∈ items, Option.Rel R (g item) (h item)) :
    List.Forall₂ R (items.filterMap g) (items.filterMap h) := by
  induction items with
  | nil => exact .nil
  | cons item rest ih =>
      obtain ⟨hitem, hrest⟩ := List.forall_mem_cons.mp hrel
      rw [List.filterMap_cons, List.filterMap_cons]
      generalize g item = left, h item = right at hitem
      cases hitem with
      | none => exact ih hrest
      | some hboth => exact .cons hboth (ih hrest)

theorem mapM_unwind (hf : Path.IsSingle f) (hpath : Path.parse f = .ok path)
    (hdocs : ∀ doc ∈ docs, ∃ id, doc.field? idKey = some id) :
    docs.mapM (unwind path false) = .ok (docs.map (unwound f)) := by
  refine mapM_eq_ok.mpr
    (List.forall₂_map_right_iff.mpr (List.forall₂_same.mpr ?_))
  intro doc hdoc
  obtain ⟨id, hid⟩ := hdocs doc hdoc
  cases doc with
  | object fields => exact unwind_eq hf hpath fields
  | _ => cases hid

/-- What a document is unwound into has its identifier. -/
theorem eval_id_unwound (hid : f ≠ idKey)
    (hdoc : ∃ id, doc.field? idKey = some id) :
    ∀ item ∈ unwound f doc, Expression.eval item (.string "$_id") =
      .ok (doc.field? idKey) := by
  intro item hitem
  obtain ⟨id, hget⟩ := hdoc
  cases doc with
  | object fields =>
      obtain ⟨others, rfl, hothers⟩ := exists_fields_of_mem_unwound hitem
      have heval := eval_reference (f := idKey) (by decide) (by decide) others
      rw [hothers idKey hid] at heval
      exact heval
  | _ => cases hget

/-- Unwinding a field of documents whose identifiers have different texts and
collecting it again restores the arrays: an array that is not empty is there
again, a value is the only element of an array, and a missing field is an empty
array. A document with an empty array is gone. -/
theorem aggregate_regroup (hne : f ≠ "") (hid : f ≠ idKey)
    (hf : Path.IsSingle f)
    (hdocs : ∀ doc ∈ docs, ∃ id, doc.field? idKey = some id)
    (hapart : docs.Pairwise fun a b => a.idText? ≠ b.idText?) :
    aggregate docs (regroup f) = .ok (docs.filterMap (restored f)) := by
  have hlist : f.toList ≠ [] := fun h => hne (String.toList_eq_nil_iff.mp h)
  obtain ⟨path, hpath⟩ := Path.exists_parse_of_isSingle hf hlist
  have heval : ∀ doc ∈ docs, ∀ item ∈ unwound f doc,
      Expression.eval item (.string "$_id") = .ok (doc.field? idKey) :=
    fun doc hdoc => eval_id_unwound hid (hdocs doc hdoc)
  have hkey : ∀ doc ∈ docs, ∀ item ∈ unwound f doc,
      groupId (.string "$_id") item = (doc.field? idKey).getD .null := by
    intro doc hdoc item hitem
    rw [groupId, heval doc hdoc item hitem]
  have hcompact : docs.Pairwise fun a b =>
      ((a.field? idKey).getD .null).compact ≠
        ((b.field? idKey).getD .null).compact := by
    refine hapart.imp_of_mem fun ha hb hne heq => ?_
    obtain ⟨id, hget⟩ := hdocs _ ha
    obtain ⟨id', hget'⟩ := hdocs _ hb
    rw [hget, hget'] at heq
    rw [Value.idText?, Value.idText?, hget, hget'] at hne
    exact hne (congrArg some heq)
  have hgroups :=
    (partitions_grouped (groupId (.string "$_id"))
      (docs.flatMap (unwound f))).unique
    (partitions_flatMap hkey hcompact)
  have hgroup : group (.string "$_id") [(f, collector f)]
      (docs.flatMap (unwound f)) =
      .ok (docs.filterMap (restored f)) := by
    refine group_eq_ok.mpr ⟨fun item hitem => ?_, ?_⟩
    · obtain ⟨doc, hdoc, hitem⟩ := List.mem_flatMap.mp hitem
      exact ⟨_, heval doc hdoc item hitem⟩
    · rw [hgroups]
      exact forall₂_filterMap fun doc hdoc =>
        rel_restored hne hf (hdocs doc hdoc)
  refine aggregate_eq_ok.mpr ⟨_, ofValue_regroup hid hpath, ?_⟩
  rw [run, List.foldlM_cons]
  show (List.flatten <$> docs.mapM (unwind path false) >>= fun blocks =>
      run [_] blocks) = _
  rw [mapM_unwind hf hpath hdocs]
  exact (run_singleton _ _).trans hgroup

/-- An array with null and an array in it, an empty array, a value, and
nothing. -/
def tagged : List Value :=
  [.object [(idKey, .ofInt 1), ("tags", .array [.null, .array [.string "a"]])],
    .object [("tags", .array []), (idKey, .ofInt 2)],
    .object [(idKey, .string "1"), ("tags", .string "b"), ("other", .null)],
    .object [(idKey, .null)]]

theorem aggregate_regroup_tagged :
    ("tags" ≠ "" ∧ "tags" ≠ idKey ∧ Path.IsSingle "tags" ∧
        (∀ doc ∈ tagged, ∃ id, doc.field? idKey = some id) ∧
        tagged.Pairwise fun a b => a.idText? ≠ b.idText?) ∧
      aggregate tagged (regroup "tags") = .ok
        [.object [(idKey, .ofInt 1),
            ("tags", .array [.null, .array [.string "a"]])],
          .object [(idKey, .string "1"), ("tags", .array [.string "b"])],
          .object [(idKey, .null), ("tags", .array [])]] := by
  have hdocs : ∀ doc ∈ tagged, ∃ id, doc.field? idKey = some id := by
    simp [tagged, Value.field?, Fields.get?, idKey]
  have hapart : tagged.Pairwise fun a b =>
      a.idText? ≠ b.idText? := by decide +kernel
  refine ⟨⟨by decide, by decide, by decide, hdocs, hapart⟩, ?_⟩
  exact aggregate_regroup (by decide) (by decide) (by decide) hdocs hapart

end DocumentStore.Aggregation
