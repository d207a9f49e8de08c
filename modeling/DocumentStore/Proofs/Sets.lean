import DocumentStore.Proofs.Expression
import DocumentStore.Proofs.Session
import DocumentStore.Proofs.Update.Array
import DocumentStore.Proofs.Value.Distinct

/-!
# Values collected without repetitions

The operator that adds to an array as to a set, the accumulator of its name and
the distinct values of a field all add values to a list unless one alike is
there (`Value.AddsDistinct`). What they add is well-formed, since documents,
operands and the results of expressions are.

So an array to which values were added contains them (`Update.Contains`), and
adding them again leaves it as it is. An update may go on to other fields, and
to the same one. It then leaves what is contained, unless it goes to an element
of the array and changes that. An update which does not, so that none of its
paths leads below the place of an earlier one, changes nothing when it is
repeated.
-/

namespace DocumentStore

/-! ## Results and contributions -/

namespace Aggregation

variable {expr : Value} {docs values : List Value}

theorem wellFormed_results (hexpr : expr.WellFormed)
    (hdocs : ∀ doc ∈ docs, doc.WellFormed)
    (h : results expr docs = .ok values) : ∀ v ∈ values, v.WellFormed := by
  induction docs generalizing values with
  | nil =>
      cases h
      exact List.forall_mem_nil _
  | cons doc rest ih =>
      obtain ⟨hdoc, hrest⟩ := List.forall_mem_cons.mp hdocs
      obtain ⟨result, hresult, h⟩ := bind_eq_ok.mp h
      obtain ⟨others, hothers, h⟩ := bind_eq_ok.mp h
      cases h
      intro v hv
      rcases List.mem_append.mp hv with hv | hv
      · exact Expression.wellFormed_eval hdoc expr hexpr hresult v
          (Option.mem_toList.mp hv)
      · exact ih hrest hothers v hv

theorem compute_addToSet (hexpr : expr.WellFormed)
    (hdocs : ∀ doc ∈ docs, doc.WellFormed)
    (h : results expr docs = .ok values) :
    ∃ added, Accumulator.compute ⟨.addToSet, expr⟩ docs = .ok (.array added) ∧
      Value.AddsDistinct [] values added := by
  obtain ⟨added, hadded, hdistinct⟩ :=
    Value.addsDistinct_foldl [] (wellFormed_results hexpr hdocs h)
  refine ⟨added, ?_, hdistinct⟩
  show (fun values => Value.array (Value.distinct values)) <$>
      results expr docs = _
  rw [h, ← List.nil_append added, ← hadded]
  rfl

end Aggregation

namespace Collection

variable {collection : Collection} {field : String} {path : Path}
  {filter clause : Value}
  {world : World} {docs found : List Value}

theorem wellFormed_contribution {doc : Value} (hdoc : doc.WellFormed) :
    ∀ v ∈ contribution path doc, v.WellFormed := by
  intro v hv
  rw [contribution] at hv
  split at hv
  · next items hget =>
      exact Value.wellFormed_array_iff.mp (Update.wellFormed_get hdoc hget) v hv
  · next w _ hget =>
      rw [List.mem_singleton.mp hv]
      exact Update.wellFormed_get hdoc hget
  · cases hv

theorem exec_distinct (hpath : Path.parse field = .ok path)
    (hclause : Filter.ofValue filter = .ok clause)
    (hread : collection.file.read world.folder = .ok docs)
    (hfound : Filter.select clause docs = .ok found) :
    ∃ added, exec (collection.distinct field filter) world =
      (.ok added, world) ∧
      Value.AddsDistinct [] (found.flatMap (contribution path)) added := by
  have hvalues : ∀ v ∈ found.flatMap (contribution path), v.WellFormed := by
    intro v hv
    obtain ⟨doc, hdoc, hv⟩ := List.mem_flatMap.mp hv
    have hmem := (Filter.select_sublist hfound).subset hdoc
    exact wellFormed_contribution
      (CollectionFile.storable_of_read hread doc hmem).1.wellFormed v hv
  obtain ⟨added, hadded, hdistinct⟩ := Value.addsDistinct_foldl [] hvalues
  refine ⟨added, ?_, hdistinct⟩
  rw [distinct, hpath, exec_bind]
  show exec (Store.ofResult (Filter.ofValue filter) >>= _) world = _
  rw [hclause, exec_bind]
  show exec (collection.file.load >>= _) world = _
  rw [CollectionFile.exec_load_bind hread, hfound,
    ← List.nil_append added, ← hadded]
  rfl

end Collection

/-! ## Updates -/

/-- What is found in an array is found there when it has grown. -/
theorem Path.lookup_append_items {segments : List Segment} {items : List Value}
    {v : Value} (hne : segments ≠ [])
    (h : lookup segments (.array items) = some v) (more : List Value) :
    lookup segments (.array (items ++ more)) = some v := by
  obtain ⟨segment, rest, rfl⟩ := List.exists_cons_of_ne_nil hne
  obtain ⟨part, hpart, hrest⟩ := Option.bind_eq_some_iff.mp h
  cases segment with
  | key name => cases hpart
  | index i =>
      have hlength : i < items.length := (List.getElem?_eq_some_iff.mp hpart).1
      have hsame : child? (.index i) (.array (items ++ more)) = some part :=
        (List.getElem?_append_left hlength).trans hpart
      rw [lookup, hsame, Option.bind_some, hrest]

namespace Update

variable {now later : Instant} {path : String} {field : Path}
  {operand doc doc' once : Value}
  {found : Option (List Value)} {entry : String × Value}
  {fields : List (String × Value)}

theorem apply_addToSet (hdoc : doc.isObject = true)
    (hoperand : operand.WellFormed) (hpath : Path.parse path = .ok field)
    (hfound : existingArray .addToSet path (field.get doc) = .ok found) :
    ∃ added, apply now (ofOperator .addToSet [(path, operand)]) doc =
        field.set (.array (found.getD [] ++ added)) doc ∧
      Value.AddsDistinct (found.getD []) (addedItems operand) added := by
  obtain ⟨added, hadded, hdistinct⟩ :=
    Value.addsDistinct_foldl (found.getD []) (wellFormed_addedItems hoperand)
  refine ⟨added, ?_, hdistinct⟩
  rw [apply_field hdoc, applyField_addToSet, amend_eq hpath hfound, ← hadded]
  rfl

theorem applyField_addToSet_eq_ok :
    applyField now .addToSet path operand doc = .ok doc' ↔
    ∃ field found, Path.parse path = .ok field ∧
      existingArray .addToSet path (field.get doc) = .ok found ∧
      field.set (.array (addToSet (found.getD []) operand)) doc = .ok doc' := by
  rw [applyField_addToSet, amend]
  simp only [bind_eq_ok]
  refine ⟨?_, ?_⟩
  · rintro ⟨field, hpath, found, hfound, hset⟩
    exact ⟨field, found, hpath, hfound, hset⟩
  · rintro ⟨field, found, hpath, hfound, hset⟩
    exact ⟨field, hpath, found, hfound, hset⟩

/-- At the path of a field is an array, with something alike to each value that
it adds. -/
def Contains (entry : String × Value) (doc : Value) : Prop :=
  ∃ field items, Path.parse entry.1 = .ok field ∧
    field.get doc = some (.array items) ∧
    ∀ v ∈ addedItems entry.2, v.isAmong items = true

theorem contains_of_applyField (hoperand : operand.WellFormed)
    (h : applyField now .addToSet path operand doc = .ok doc') :
    Contains (path, operand) doc' := by
  obtain ⟨field, found, hpath, -, hset⟩ := applyField_addToSet_eq_ok.mp h
  obtain ⟨added, hadded, hdistinct⟩ :=
    Value.addsDistinct_foldl (found.getD []) (wellFormed_addedItems hoperand)
  refine ⟨field, _, hpath,
    Path.lookup_of_assign (Path.set_eq_ok_iff.mp hset), ?_⟩
  rw [addToSet, hadded]
  exact hdistinct.complete

/-- What is contained already is not added again. -/
theorem Contains.applyField_eq (h : Contains (path, operand) doc) :
    applyField now .addToSet path operand doc = .ok doc := by
  obtain ⟨field, items, hpath, hget, hamong⟩ := h
  have hfound : existingArray .addToSet path (field.get doc) =
      .ok (some items) := by
    rw [hget, existingArray_some_eq_ok]
    exact ⟨items, rfl, rfl⟩
  refine applyField_addToSet_eq_ok.mpr ⟨field, some items, hpath, hfound, ?_⟩
  rw [Option.getD_some, addToSet, Value.foldl_addTo_of_isAmong hamong]
  exact Path.set_eq_ok_iff.mpr (Path.assign_of_lookup hget)

/-- The path of the second field leads below the place of the first one. -/
def LeadsBelow (a b : String × Value) : Prop :=
  Path.Within (segmentsOf a.1) (segmentsOf b.1) ∧
    ¬ Path.Within (segmentsOf b.1) (segmentsOf a.1)

instance : DecidableRel LeadsBelow := fun a b =>
  inferInstanceAs (Decidable (Path.Within (segmentsOf a.1) (segmentsOf b.1) ∧
    ¬ Path.Within (segmentsOf b.1) (segmentsOf a.1)))

/-- Whatever is at one of the paths, in it or apart from it, is still there when
the array at the other one has grown. -/
theorem Contains.applyField (hoperand : operand.WellFormed)
    (h : Contains entry doc) (hbelow : ¬ LeadsBelow entry (path, operand))
    (happly : Update.applyField now .addToSet path operand doc = .ok doc') :
    Contains entry doc' := by
  obtain ⟨place, items, hplace, hget, hamong⟩ := h
  obtain ⟨field, found, hpath, hfound, hset⟩ :=
    applyField_addToSet_eq_ok.mp happly
  rw [LeadsBelow, segmentsOf_eq hplace, segmentsOf_eq hpath] at hbelow
  have hassign := Path.set_eq_ok_iff.mp hset
  by_cases hwithin : Path.Within field.segments place.segments
  · obtain ⟨before, rest, hbefore, hrest, hafter⟩ :=
      Path.lookup_within hassign hwithin hget
    rw [Path.get, hbefore, existingArray_some_eq_ok] at hfound
    obtain ⟨start, rfl, rfl⟩ := hfound
    obtain ⟨added, hadded, -⟩ :=
      Value.addsDistinct_foldl start (wellFormed_addedItems hoperand)
    rw [Option.getD_some, addToSet, hadded] at hafter
    by_cases hrest' : rest = []
    · -- The two paths lead to the same array.
      subst hrest'
      cases hrest
      exact ⟨place, _, hplace, hafter,
        fun v hv => Value.isAmong_append_left (hamong v hv) added⟩
    · have hlookup := Path.lookup_append_items hrest' hrest added
      exact ⟨place, items, hplace, hafter.trans hlookup, hamong⟩
  · have hdiverge := Path.diverge_of_not_within hwithin fun hin =>
      hbelow ⟨hin, hwithin⟩
    have hkept := Path.kept_of_diverge hassign hdiverge
    refine ⟨place, items, hplace, (hkept.resolve_right ?_).trans hget, hamong⟩
    exact fun hnone => Option.some_ne_none _ (hget.symm.trans hnone.1)

/-- After all fields each of them is contained. -/
theorem contains_of_applyFields (hvalues : ∀ entry ∈ fields, entry.2.WellFormed)
    (hbelow : fields.Pairwise fun a b => ¬ LeadsBelow a b)
    (h : applyFields now .addToSet fields doc = .ok once) :
    ∀ entry ∈ fields, Contains entry once := by
  induction fields generalizing doc with
  | nil => exact List.forall_mem_nil _
  | cons first rest ih =>
      obtain ⟨hfirst, hothers⟩ := List.forall_mem_cons.mp hvalues
      obtain ⟨hspared, hrest⟩ := List.pairwise_cons.mp hbelow
      obtain ⟨changed, hchanged, h⟩ := bind_eq_ok.mp h
      refine List.forall_mem_cons.mpr ⟨?_, ih hothers hrest h⟩
      refine applyFields_keeps (P := Contains first) ?_ h
        (contains_of_applyField hfirst hchanged)
      intro field hfield before after happly hbefore
      exact hbefore.applyField (hothers field hfield)
        (hspared field hfield) happly

theorem applyFields_eq_of_contains (h : ∀ entry ∈ fields, Contains entry doc) :
    applyFields now .addToSet fields doc = .ok doc := by
  induction fields with
  | nil => rfl
  | cons first rest ih =>
      obtain ⟨hfirst, hrest⟩ := List.forall_mem_cons.mp h
      rw [applyFields, hfirst.applyField_eq]
      exact ih hrest

theorem apply_addToSet_again (hvalues : ∀ entry ∈ fields, entry.2.WellFormed)
    (hbelow : fields.Pairwise fun a b => ¬ LeadsBelow a b)
    (h : apply now (ofOperator .addToSet fields) doc = .ok once) :
    apply later (ofOperator .addToSet fields) once = .ok once := by
  have hdoc := isObject_of_apply h
  rw [apply_ofOperator hdoc] at h
  have honce : once.isObject = true := by
    refine applyFields_keeps (P := fun doc => doc.isObject = true) ?_ h hdoc
    intro field _ before after happly hbefore
    rw [applyField_addToSet] at happly
    exact isObject_amend happly hbefore
  rw [apply_ofOperator honce]
  exact applyFields_eq_of_contains (contains_of_applyFields hvalues hbelow h)

/-- An empty list is put in the array at a path, and then a number in the first
element. -/
def nested : List (String × Value) := [("a", .array []), ("a.0", .ofInt 2)]

/-- The second time the first element is no empty list any more. -/
theorem apply_addToSet_again_nested :
    apply someTime (ofOperator .addToSet nested) (.object [("a", .array [])]) =
        .ok (.object [("a", .array [.array [.ofInt 2]])]) ∧
      apply someTime (ofOperator .addToSet nested)
        (.object [("a", .array [.array [.ofInt 2]])]) =
        .ok (.object [("a", .array [.array [.ofInt 2], .array []])]) ∧
      Value.object [("a", .array [.array [.ofInt 2], .array []])] ≠
        .object [("a", .array [.array [.ofInt 2]])] := by
  decide +kernel

end Update

/-! ## Three ways to a set -/

open Update (ofOperator existingArray addedItems LeadsBelow)

/-- Values are added as to a set, in the sense of `Value.AddsDistinct`, by an
update to the array at a path, by the accumulator to an empty list, from the
results of its expression, and by the distinct values of a field to an empty
list, from what the documents found contribute. An update that only adds to
sets, and in which no path leads below the place of one before it, changes
nothing the second time. -/
theorem sets_add_distinct :
    (∀ now path operand doc field found, operand.WellFormed →
        doc.isObject = true →
      Path.parse path = .ok field →
        existingArray .addToSet path (field.get doc) = .ok found →
      ∃ added, Update.apply now (ofOperator .addToSet [(path, operand)]) doc =
          field.set (.array (found.getD [] ++ added)) doc ∧
        Value.AddsDistinct (found.getD []) (addedItems operand) added) ∧
    (∀ expr docs values, expr.WellFormed → (∀ doc ∈ docs, doc.WellFormed) →
      Aggregation.results expr docs = .ok values →
      ∃ added, Aggregation.Accumulator.compute ⟨.addToSet, expr⟩ docs =
        .ok (.array added) ∧
        Value.AddsDistinct [] values added) ∧
    (∀ (collection : Collection) field path filter clause world docs found,
      Path.parse field = .ok path → Filter.ofValue filter = .ok clause →
      collection.file.read world.folder = .ok docs →
        Filter.select clause docs = .ok found →
      ∃ added, exec (collection.distinct field filter) world =
        (.ok added, world) ∧
        Value.AddsDistinct []
          (found.flatMap (Collection.contribution path)) added) ∧
    ∀ now later fields doc once, (∀ entry ∈ fields, entry.2.WellFormed) →
      (fields.Pairwise fun a b => ¬ LeadsBelow a b) →
      Update.apply now (ofOperator .addToSet fields) doc = .ok once →
      Update.apply later (ofOperator .addToSet fields) once = .ok once := by
  refine ⟨?_, ?_, ?_, ?_⟩
  · intro now path operand doc field found hoperand hdoc hpath hfound
    exact Update.apply_addToSet hdoc hoperand hpath hfound
  · intro expr docs values hexpr hdocs hvalues
    exact Aggregation.compute_addToSet hexpr hdocs hvalues
  · intro collection field path filter clause world docs found hpath hclause
      hread hfound
    exact Collection.exec_distinct hpath hclause hread hfound
  · intro now later fields doc once hvalues hbelow h
    exact Update.apply_addToSet_again hvalues hbelow h

/-- A date, and the same one in another spelling. -/
def sameDates : List Value := [Value.firstMillisText, Value.firstMillis]

/-- A stored document for each of them. -/
def dated : List Value :=
  [.object [("at", Value.firstMillisText), (idKey, .string "0")],
    .object [("at", Value.firstMillis), (idKey, .string "1")]]

def datedWorld : World :=
  ⟨Session.people.file.written none dated, Session.nowhere.ids⟩

def tagsPath : Path := ⟨[.key "tags"], List.cons_ne_nil _ _⟩

def atPath : Path := ⟨[.key "at"], List.cons_ne_nil _ _⟩

/-- The dates for the tags, and a number for a list before the list around
it. -/
def datedTags : List (String × Value) :=
  [("tags", Update.each sameDates), ("more.0", .ofInt 1), ("more", .null)]

/-- What becomes of a list in a list. -/
def datedOnce : Value :=
  .object [("more", .array [.array [.ofInt 1], .null]),
    ("tags", .array [Value.firstMillisText])]

theorem sets_add_distinct_sameDates :
    (∃ added, Update.apply Update.someTime
        (ofOperator .addToSet [("tags", Update.each sameDates)])
        (Path.tagged "a") = tagsPath.set (.array (.string "a" :: added))
          (Path.tagged "a") ∧
      Value.AddsDistinct [.string "a"] sameDates added) ∧
    (∃ added, Aggregation.Accumulator.compute ⟨.addToSet, .string "$at"⟩ dated =
        .ok (.array added) ∧ Value.AddsDistinct [] sameDates added) ∧
    (∃ added, exec (Session.people.distinct "at" .null) datedWorld =
        (.ok added, datedWorld) ∧
      Value.AddsDistinct [] sameDates added) ∧
    Update.apply Update.someTime (ofOperator .addToSet datedTags)
        (.object [("more", .array [.array []])]) = .ok datedOnce ∧
      ∀ later, Update.apply later (ofOperator .addToSet datedTags) datedOnce =
        .ok datedOnce := by
  obtain ⟨hupdate, haccumulator, hdistinct, hagain⟩ := sets_add_distinct
  have hdates : (Update.each sameDates).WellFormed := by decide +kernel
  have htags : Path.parse "tags" = .ok tagsPath := by decide +kernel
  have hat : Path.parse "at" = .ok atPath := by decide +kernel
  have hexpr : (Value.string "$at").WellFormed := trivial
  have hdated : ∀ doc ∈ dated, doc.WellFormed := by decide +kernel
  have hresults : Aggregation.results (.string "$at") dated =
      .ok sameDates := by
    simp only [Aggregation.results, dated, Expression.eval]
    decide +kernel
  have hobjects : ∀ doc ∈ dated, doc.isObject = true := by decide +kernel
  have hdepths : ∀ doc ∈ dated,
      doc.depth < CollectionFile.greatestDepth := by decide +kernel
  have hwritable : Session.people.file.Writable none :=
    ⟨none, by decide +kernel, nofun⟩
  have hstorable : ∀ doc ∈ dated, doc.Storable :=
    fun doc hdoc => ⟨hdated doc hdoc, hobjects doc hdoc⟩
  have hread : Session.people.file.read datedWorld.folder = .ok dated :=
    CollectionFile.read_written hwritable hstorable hdepths
  have hselect : Filter.select (.object []) dated = .ok dated := by
    decide +kernel
  have hvalues : ∀ entry ∈ datedTags, entry.2.WellFormed := by decide +kernel
  have hbelow : datedTags.Pairwise fun a b =>
      ¬ LeadsBelow a b := by decide +kernel
  have honce : Update.apply Update.someTime (ofOperator .addToSet datedTags)
      (.object [("more", .array [.array []])]) = .ok datedOnce := by
    decide +kernel
  refine ⟨?_, ?_, ?_, honce, ?_⟩
  · exact hupdate _ _ _ _ _ (some [.string "a"]) hdates rfl htags rfl
  · exact haccumulator _ _ _ hexpr hdated hresults
  · exact hdistinct _ _ _ _ _ _ _ _ hat rfl hread hselect
  · exact fun later => hagain _ later _ _ _ hvalues hbelow honce

end DocumentStore
