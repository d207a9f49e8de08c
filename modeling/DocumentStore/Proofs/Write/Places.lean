import DocumentStore.Proofs.Filter.Identifier
import DocumentStore.Proofs.Find
import DocumentStore.Proofs.Write.Sound

/-!
# What a write acts on

A write finds its documents by their places, a search gives the documents
themselves. Where a filter is asked of every document the two find the same. A
filter that asks for a string as the identifier is not asked: the place is
looked up in the index, and that finds the document with this identifier only.

So a write acts on the documents of which `acts` holds, a search gives those of
which `selects` holds, and `selects_iff` says how far apart they are: by the
documents whose identifier is an array with the string in it.
-/

namespace DocumentStore

/-! ## Places of documents -/

namespace Write

variable {p : Value → Bool} {docs : List Value} {clause : Value}

/-- The places of the documents of which `p` holds. -/
def placesWhere (p : Value → Bool) (place : Nat) : List Value → List Nat
  | [] => []
  | doc :: rest =>
      if p doc then place :: placesWhere p (place + 1) rest
      else placesWhere p (place + 1) rest

theorem le_of_mem_placesWhere {place i : Nat}
    (h : i ∈ placesWhere p place docs) : place ≤ i := by
  induction docs generalizing place with
  | nil => cases h
  | cons doc rest ih =>
      rw [placesWhere] at h
      split at h
      · rcases List.mem_cons.mp h with rfl | h
        · exact Nat.le_refl i
        · exact Nat.le_of_succ_le (ih h)
      · exact Nat.le_of_succ_le (ih h)

/-- The documents at the places are those of which `p` holds. -/
theorem filterMap_placesWhere (p : Value → Bool) (place : Nat)
    (docs : List Value) :
    (placesWhere p place docs).filterMap (fun i => docs[i - place]?) =
      docs.filter p := by
  induction docs generalizing place with
  | nil => rfl
  | cons doc rest ih =>
      have hrest : (placesWhere p (place + 1) rest).filterMap
          (fun i => (doc :: rest)[i - place]?) =
          rest.filter p := by
        rw [← ih (place + 1)]
        refine List.filterMap_congr fun i hi => ?_
        have hle := le_of_mem_placesWhere hi
        have hsub : i - place = i - (place + 1) + 1 := by omega
        rw [hsub, List.getElem?_cons_succ]
      rw [placesWhere, List.filter_cons]
      split
      · rw [List.filterMap_cons, Nat.sub_self, List.getElem?_cons_zero, hrest]
      · exact hrest

theorem mem_placesWhere {i : Nat} :
    i ∈ placesWhere p 0 docs ↔ (docs[i]?).any p = true := by
  suffices hplace : ∀ place, place + i ∈ placesWhere p place docs ↔
      (docs[i]?).any p = true by
    simpa using hplace 0
  induction docs generalizing i with
  | nil => simp [placesWhere]
  | cons doc rest ih =>
      intro place
      have hlater : place ∉ placesWhere p (place + 1) rest :=
        fun h => Nat.not_succ_le_self place (le_of_mem_placesWhere h)
      rw [placesWhere]
      cases i with
      | zero => split <;> simp_all
      | succ i =>
          have hrest := ih (i := i) (place + 1)
          rw [Nat.add_right_comm] at hrest
          rw [List.getElem?_cons_succ, ← hrest, ← Nat.add_assoc]
          split
          · rw [List.mem_cons, or_iff_right (by omega)]
          · rfl

theorem partitionAt_nil (place : Nat) (items : List α) :
    partitionAt place [] items = ([], items) := by
  cases items with
  | nil => rfl
  | cons item rest => rfl

/-- Taking away what is at the places leaves the documents of which `p` does not
hold. -/
theorem partitionAt_placesWhere (p : Value → Bool) (place : Nat)
    (docs : List Value) :
    partitionAt place (placesWhere p place docs) docs =
      (docs.filter p, docs.filter fun doc => !p doc) := by
  induction docs generalizing place with
  | nil => rfl
  | cons doc rest ih =>
      rw [placesWhere, List.filter_cons, List.filter_cons]
      cases hp : p doc with
      | true =>
          rw [if_pos rfl, partitionAt, if_pos rfl, ih (place + 1)]
          rfl
      | false =>
          have hle : ∀ i ∈ placesWhere p (place + 1) rest, place + 1 ≤ i :=
            fun i hi => le_of_mem_placesWhere hi
          have hrest := ih (place + 1)
          cases hplaces : placesWhere p (place + 1) rest with
          | nil =>
              rw [hplaces, partitionAt_nil, Prod.mk.injEq] at hrest
              rw [if_neg Bool.false_ne_true, partitionAt_nil,
                if_neg Bool.false_ne_true, ← hrest.1, Bool.not_false,
                if_pos rfl, ← hrest.2]
          | cons first more =>
              rw [hplaces] at hle hrest
              have hfirst := hle first List.mem_cons_self
              rw [if_neg Bool.false_ne_true, partitionAt,
                if_neg (by omega), hrest]
              rfl

theorem placesWhere_eq_nil {place : Nat} (h : ∀ doc ∈ docs, p doc = false) :
    placesWhere p place docs = [] := by
  induction docs generalizing place with
  | nil => rfl
  | cons doc rest ih =>
      rw [placesWhere, h doc List.mem_cons_self, if_neg Bool.false_ne_true]
      exact ih fun d hd => h d (List.mem_cons_of_mem _ hd)

/-- The first place is the only one if `p` holds of no two documents. -/
theorem toList_findIdx?
    (hunique : docs.Pairwise fun a b => p a = true → p b = false)
    (place : Nat) :
    ((docs.findIdx? p).map (· + place)).toList = placesWhere p place docs := by
  induction docs generalizing place with
  | nil => rfl
  | cons doc rest ih =>
      rw [List.pairwise_cons] at hunique
      rw [List.findIdx?_cons, placesWhere]
      split
      · next hp =>
          rw [placesWhere_eq_nil fun d hd => hunique.1 d hd hp, Option.map_some,
            Nat.zero_add]
          rfl
      · rw [← ih hunique.2 (place + 1), Option.map_map]
        congr 2
        funext i
        show i + 1 + place = i + (place + 1)
        omega

theorem placesFrom_eq
    (hdecided : ∀ doc ∈ docs, ∃ b, Filter.isMatch clause doc = .ok b)
    (place : Nat) :
    placesFrom clause place docs =
      .ok (placesWhere (fun doc => Filter.isMatch clause doc = .ok true) place
        docs) := by
  induction docs generalizing place with
  | nil => rfl
  | cons doc rest ih =>
      obtain ⟨b, hb⟩ := hdecided doc List.mem_cons_self
      have hrest := ih (fun d hd => hdecided d (List.mem_cons_of_mem _ hd))
        (place + 1)
      rw [placesFrom, placesWhere, hb, hrest]
      cases b with
      | true => rfl
      | false => rfl

end Write

/-! ## Searches and writes -/

namespace Filter

variable {filter clause doc : Value} {docs found : List Value}

/-- A search finds the document. -/
def selects (filter doc : Value) : Bool := Filter.isMatch filter doc = .ok true

/-- A write acts on the document. -/
def acts (filter doc : Value) : Bool :=
  match Write.soughtId? filter with
  | some id => doc.field? idKey = some id
  | none => selects filter doc

theorem acts_of_soughtId {s : String}
    (h : Write.soughtId? filter = some (.string s)) :
    acts filter = fun doc => decide (doc.field? idKey = some (.string s)) := by
  funext doc
  rw [acts, h]

theorem acts_of_no_soughtId (h : Write.soughtId? filter = none) :
    acts filter = selects filter := by
  funext doc
  rw [acts, h]

theorem decided_of_select (h : select clause docs = .ok found) :
    ∀ doc ∈ docs, ∃ b, Filter.isMatch clause doc = .ok b := by
  induction docs generalizing found with
  | nil => exact fun doc hdoc => nomatch hdoc
  | cons first rest ih =>
      obtain ⟨b, hb, h⟩ := bind_eq_ok.mp h
      intro doc hdoc
      rcases List.mem_cons.mp hdoc with rfl | hdoc
      · exact ⟨b, hb⟩
      · cases b with
        | true =>
            obtain ⟨others, hothers, -⟩ := bind_eq_ok.mp h
            exact ih hothers doc hdoc
        | false => exact ih h doc hdoc

theorem select_eq
    (hdecided : ∀ doc ∈ docs, ∃ b, Filter.isMatch clause doc = .ok b) :
    select clause docs = .ok (docs.filter (selects clause)) := by
  induction docs with
  | nil => rfl
  | cons doc rest ih =>
      obtain ⟨b, hb⟩ := hdecided doc List.mem_cons_self
      have hrest := ih fun d hd => hdecided d (List.mem_cons_of_mem _ hd)
      rw [select, List.filter_cons, selects, hb, hrest]
      cases b with
      | true => rfl
      | false => rfl

theorem soughtId?_eq_some {id : Value} (h : Write.soughtId? filter = some id) :
    ∃ s, id = .string s ∧ filter = ofId s := by
  unfold Write.soughtId? at h
  split at h
  · next key s =>
      split at h
      · next hkey =>
          cases h
          exact ⟨s, rfl, by rw [hkey, ofId]⟩
      · cases h
  · cases h

theorem soughtId?_eq_none (h : ∀ s, filter ≠ ofId s) :
    Write.soughtId? filter = none := by
  refine Option.eq_none_iff_forall_ne_some.mpr fun id hid => ?_
  obtain ⟨s, -, heq⟩ := soughtId?_eq_some hid
  exact h s heq

theorem soughtId?_ofId (s : String) :
    Write.soughtId? (ofId s) = some (.string s) := by
  rw [ofId, Write.soughtId?, if_pos rfl]

/-- The filter asks for a string as the identifier, and the document's is an
array with that string in it. -/
def Crosses (filter doc : Value) : Prop := ∃ s, filter = ofId s ∧ doc.Spreads s

/-- A search finds what a write acts on, and what the filter crosses. -/
theorem selects_iff :
    selects filter doc = true ↔ acts filter doc = true ∨
      Crosses filter doc := by
  cases hsought : Write.soughtId? filter with
  | none =>
      have hcross : ¬ Crosses filter doc := by
        rintro ⟨s, rfl, -⟩
        rw [soughtId?_ofId] at hsought
        cases hsought
      rw [acts, hsought]
      simp [hcross]
  | some id =>
      obtain ⟨s, rfl, rfl⟩ := soughtId?_eq_some hsought
      obtain ⟨b, hb, hiff⟩ := isMatch_ofId s doc
      have hcross : Crosses (ofId s) doc ↔ doc.Spreads s := by
        refine ⟨?_, fun h => ⟨s, rfl, h⟩⟩
        rintro ⟨t, ht, h⟩
        rw [ofId, ofId] at ht
        cases ht
        exact h
      rw [acts, hsought, selects, hb, hcross]
      simpa using hiff

theorem not_acts_of_crosses (h : Crosses filter doc) :
    acts filter doc = false := by
  obtain ⟨s, rfl, items, hid, -⟩ := h
  rw [acts, soughtId?_ofId]
  simp [hid]

end Filter

namespace Write

variable {filter : Value} {docs found : List Value}

theorem firstPlaceFrom_eq {clause : Value} {place : Nat} {found : List Nat}
    (h : firstPlaceFrom clause place docs = .ok found) :
    found =
      ((docs.findIdx? (Filter.selects clause)).map (· + place)).toList := by
  induction docs generalizing place with
  | nil =>
      cases h
      rfl
  | cons doc rest ih =>
      obtain ⟨b, hb, h⟩ := bind_eq_ok.mp h
      rw [List.findIdx?_cons, Filter.selects, hb]
      cases b with
      | true =>
          cases h
          simp
      | false =>
          rw [ih h, if_neg (by simp), Option.map_map]
          congr 2
          funext i
          show i + (place + 1) = i + 1 + place
          omega

theorem decided_of_placesFrom {clause : Value} {place : Nat} {found : List Nat}
    (h : placesFrom clause place docs = .ok found) :
    ∀ doc ∈ docs, ∃ b, Filter.isMatch clause doc = .ok b := by
  induction docs generalizing place found with
  | nil =>
      intro doc hdoc
      cases hdoc
  | cons first rest ih =>
      obtain ⟨b, hb, h⟩ := bind_eq_ok.mp h
      intro doc hdoc
      rcases List.mem_cons.mp hdoc with rfl | hdoc
      · exact ⟨b, hb⟩
      · cases b with
        | true =>
            obtain ⟨others, hothers, -⟩ := bind_eq_ok.mp h
            exact ih hothers doc hdoc
        | false => exact ih h doc hdoc

/-- A filter that is asked of the documents finds those that its clause selects,
or the first of them. -/
theorem places_of_no_soughtId {batch : Batch} {many : Bool} {found : List Nat}
    (hsought : soughtId? filter = none)
    (h : places batch filter many = .ok found) :
    ∃ clause, Filter.ofValue filter = .ok clause ∧
      found = if many then placesWhere (Filter.selects clause) 0 batch.docs
        else (batch.docs.findIdx? (Filter.selects clause)).toList := by
  rw [places, hsought] at h
  obtain ⟨clause, hclause, h⟩ := bind_eq_ok.mp h
  refine ⟨clause, hclause, ?_⟩
  cases many with
  | true =>
      have hall := placesFrom_eq (decided_of_placesFrom h) 0
      exact Except.ok.inj (h.symm.trans hall)
  | false =>
      rw [firstPlaceFrom_eq h]
      simp

/-- Over the index built of the documents, a filter finds the first document
that it acts on. -/
theorem firstPlace_eq {ids : IdSupply} {found : List Nat}
    (h : places (.ofDocs docs ids) filter false = .ok found) :
    ∃ clause, Filter.ofValue filter = .ok clause ∧
      found = (docs.findIdx? (Filter.acts clause)).toList := by
  cases hsought : soughtId? filter with
  | some id =>
      obtain ⟨s, rfl, rfl⟩ := Filter.soughtId?_eq_some hsought
      have hexact : IdIndex.Exact IdIndex.IsStringText
          (IdIndex.build docs) docs :=
        IdIndex.exact_build _ docs
      rw [places, hsought] at h
      refine ⟨Filter.ofId s, rfl, ?_⟩
      rw [Filter.acts_of_soughtId hsought, ← hexact.find?_string]
      exact (Except.ok.inj h).symm
  | none =>
      obtain ⟨clause, hclause, hfound⟩ := places_of_no_soughtId hsought h
      have hplain : soughtId? clause = none := by
        cases filter with
        | object fields =>
            cases hclause
            exact hsought
        | null =>
            cases hclause
            rfl
        | bool b => cases hclause
        | number n => cases hclause
        | string s => cases hclause
        | array items => cases hclause
      refine ⟨clause, hclause, ?_⟩
      rw [Filter.acts_of_no_soughtId hplain]
      exact hfound

/-- Over the index built of well-keyed documents, the places that a filter finds
are those of the documents that it acts on. -/
theorem places_eq {fields : List (String × Value)} (hkeyed : WellKeyed docs)
    (hfind : Filter.select (.object fields) docs = .ok found) (ids : IdSupply) :
    places (.ofDocs docs ids) (.object fields) true =
      .ok (placesWhere (Filter.acts (.object fields)) 0 docs) := by
  rw [places]
  cases hsought : soughtId? (.object fields) with
  | none =>
      rw [Filter.acts_of_no_soughtId hsought]
      exact placesFrom_eq (Filter.decided_of_select hfind) 0
  | some id =>
      obtain ⟨s, rfl, -⟩ := Filter.soughtId?_eq_some hsought
      have hacts := Filter.acts_of_soughtId hsought
      have hunique : docs.Pairwise fun a b =>
          Filter.acts (.object fields) a = true →
          Filter.acts (.object fields) b = false := by
        rw [hacts]
        refine hkeyed.apart.imp fun hapart ha => decide_eq_false fun hb => ?_
        exact hapart _ ⟨s, rfl⟩
          (Value.idText?_eq_string_iff.mpr (of_decide_eq_true ha))
          (Value.idText?_eq_string_iff.mpr hb)
      have hexact : IdIndex.Exact IdIndex.IsStringText
          (IdIndex.build docs) docs :=
        IdIndex.exact_build _ docs
      rw [← toList_findIdx? hunique 0, hacts]
      show Except.ok ((IdIndex.build docs).find? (.string s)).toList = _
      rw [hexact.find?_string]
      simp

/-- Deleting takes the documents that the filter acts on and leaves the
others. -/
theorem exec_deleteAll {fields : List (String × Value)}
    (hkeyed : WellKeyed docs)
    (hfind : Filter.select (.object fields) docs = .ok found) (ids : IdSupply) :
    ∃ after, exec (delete (.object fields) true) (.ofDocs docs ids) =
        (.ok (docs.filter (Filter.acts (.object fields))), after) ∧
      after.docs = docs.filter fun doc =>
        !Filter.acts (.object fields) doc := by
  have hparts := partitionAt_placesWhere (Filter.acts (.object fields)) 0 docs
  rw [exec_delete, places_eq hkeyed hfind]
  dsimp only
  split
  · next hempty =>
      rw [List.isEmpty_iff.mp hempty, partitionAt_nil, Prod.mk.injEq] at hparts
      rw [← hparts.1, ← hparts.2]
      exact ⟨_, rfl, rfl⟩
  · exact ⟨_, Prod.ext (congrArg Except.ok (congrArg Prod.fst hparts)) rfl,
      congrArg Prod.snd hparts⟩

end Write

end DocumentStore
