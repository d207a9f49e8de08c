import DocumentStore.Proofs.Session
import DocumentStore.Proofs.Write.Places
import DocumentStore.Proofs.Write.Renew

/-!
# A deletion, document by document

A deletion takes away what stands at the places that its filter found, in one
walk along the list. It could as well take the documents away one at a time, but
then only from the last place to the first: a document that is gone moves those
after it, and none before it. `takeAway` does that, and
`partitionAt_eq_takeAway` says that for places which ascend the two come to the
same. What the induction has to know is that after the removals at later places
the list begins as it did.

So a deletion parts the list: what the filter selects is taken away and the rest
stays, both in order; and if only the first is wanted, the list is what it was
without that one. The index is built anew whenever something is gone, so it is
never worse than before.
-/

namespace DocumentStore.Write

variable {filter clause : Value} {docs : List Value} {batch after : Batch}
  {many : Bool}

/-! ## One at a time -/

/-- Take away what is at some places, one after the other from the last place to
the first, and give it in order, with what is left. -/
def takeAway (items : List α) (places : List Nat) : List α × List α :=
  places.foldr (fun place (taken, left) =>
      (left[place]?.toList ++ taken, left.eraseIdx place))
    ([], items)

theorem takeAway_cons (items : List α) (place : Nat) (rest : List Nat) :
    takeAway items (place :: rest) =
      ((takeAway items rest).2[place]?.toList ++ (takeAway items rest).1,
        (takeAway items rest).2.eraseIdx place) := rfl

/-- Places past the end take nothing away. -/
theorem takeAway_of_length_le {items : List α} {places : List Nat}
    (h : ∀ i ∈ places, items.length ≤ i) :
    takeAway items places = ([], items) := by
  induction places with
  | nil => rfl
  | cons place rest ih =>
      have hplace := h place List.mem_cons_self
      rw [takeAway_cons, ih fun i hi => h i (List.mem_cons_of_mem _ hi),
        List.getElem?_eq_none hplace, List.eraseIdx_of_length_le hplace]
      rfl

/-- The items before all of the places stay where they are, so they do not
matter. -/
theorem takeAway_append {items : List α} {places : List Nat} (kept : List α)
    (hplaces : places.Pairwise (· < ·))
    (hlater : ∀ i ∈ places, kept.length ≤ i) :
    takeAway (kept ++ items) places =
      ((partitionAt kept.length places items).1,
        kept ++ (partitionAt kept.length places items).2) := by
  induction items generalizing kept places with
  | nil =>
      rw [List.append_nil, takeAway_of_length_le hlater]
      cases places <;> simp [partitionAt]
  | cons item rest ih =>
      have hmoved : kept ++ item :: rest = (kept ++ [item]) ++ rest := by simp
      have hlength : (kept ++ [item]).length = kept.length + 1 := by simp
      cases places with
      | nil => rfl
      | cons place more =>
          obtain ⟨hmore, hascending⟩ := List.pairwise_cons.mp hplaces
          rw [partitionAt]
          split
          · next hplace =>
              subst hplace
              have hrest := ih (kept ++ [item]) hascending fun i hi => by
                rw [hlength]
                exact hmore i hi
              rw [takeAway_cons, hmoved, hrest, hlength]
              simp [List.eraseIdx_append_of_length_le]
          · next hne =>
              have hplace := hlater place List.mem_cons_self
              rw [hmoved, ih (kept ++ [item]) hplaces, hlength]
              · simp
              · intro i hi
                rw [hlength]
                rcases List.mem_cons.mp hi with rfl | hi
                · omega
                · exact Nat.lt_of_le_of_lt hplace (hmore i hi)

theorem partitionAt_eq_takeAway {items : List α} {places : List Nat}
    (hplaces : places.Pairwise (· < ·)) :
    partitionAt 0 places items = takeAway items places :=
  (takeAway_append [] hplaces fun _ _ => Nat.zero_le _).symm

/-- A deletion takes away what is at the places that it finds, one after the
other. -/
theorem exec_delete_takeAway (filter : Value) (many : Bool) (batch : Batch) :
    exec (delete filter many) batch =
      match places batch filter many with
      | .error e => (.error e, batch)
      | .ok found =>
          (.ok (takeAway batch.docs found).1,
            if found.isEmpty then batch
            else
              { batch with
                docs := (takeAway batch.docs found).2
                index := IdIndex.build (takeAway batch.docs found).2 }) := by
  rw [exec_delete]
  cases hfound : places batch filter many with
  | error e => rfl
  | ok found =>
      dsimp only
      rw [partitionAt_eq_takeAway (ascending_places hfound)]
      cases found with
      | nil => rfl
      | cons place rest => rfl

/-! ## What is taken and what is left -/

theorem takeAway_findIdx? (p : Value → Bool) (docs : List Value) :
    takeAway docs (docs.findIdx? p).toList =
      ((docs.find? p).toList, docs.eraseP p) := by
  rw [List.eraseP_eq_eraseIdx, List.find?_eq_bind_findIdx?_getElem?]
  cases docs.findIdx? p with
  | none => rfl
  | some i => simp [takeAway]

/-- If only the first document is looked for, those before it are not
selected. -/
theorem decided_of_firstPlaceFrom {place : Nat} {found : List Nat}
    (h : firstPlaceFrom clause place docs = .ok found) :
    ∀ doc ∈ docs.takeWhile fun doc => !Filter.selects clause doc,
      Filter.isMatch clause doc = .ok false := by
  induction docs generalizing place with
  | nil => exact fun doc hdoc => nomatch hdoc
  | cons first rest ih =>
      obtain ⟨b, hb, h⟩ := bind_eq_ok.mp h
      intro doc hdoc
      cases b with
      | true => simp [Filter.selects, hb] at hdoc
      | false =>
          rw [List.takeWhile_cons_of_pos (by simp [Filter.selects, hb])] at hdoc
          rcases List.mem_cons.mp hdoc with rfl | hdoc
          · exact hb
          · exact ih h doc hdoc

/-- Taking away all documents that are found parts the list into those that the
filter selects and the others. Taking away the first leaves all others. Either
way the order stays, and an index that was built of the documents is the one
built of those that are left. -/
theorem delete_partitions {taken : List Value}
    (hfilter : ∀ s, filter ≠ Filter.ofId s)
    (hrun : exec (delete filter many) batch = (.ok taken, after)) :
    ∃ clause, Filter.ofValue filter = .ok clause ∧
      (many = true →
        (∀ doc ∈ batch.docs, ∃ b, Filter.isMatch clause doc = .ok b) ∧
          taken = batch.docs.filter (Filter.selects clause) ∧
          after.docs = batch.docs.filter fun doc =>
            !Filter.selects clause doc) ∧
      (many = false →
        (∀ doc ∈ batch.docs.takeWhile fun doc => !Filter.selects clause doc,
            Filter.isMatch clause doc = .ok false) ∧
          taken = (batch.docs.find? (Filter.selects clause)).toList ∧
          after.docs = batch.docs.eraseP (Filter.selects clause)) ∧
      (batch.index = IdIndex.build batch.docs →
        after.index = IdIndex.build after.docs) := by
  have hsought := Filter.soughtId?_eq_none hfilter
  rw [exec_delete_takeAway] at hrun
  cases hfound : places batch filter many with
  | error e =>
      rw [hfound] at hrun
      cases hrun
  | ok found =>
      rw [hfound] at hrun
      -- If nothing is found the batch is not touched, and nothing would be
      -- taken away.
      have hdocs : after.docs = (takeAway batch.docs found).2 := by
        cases found <;> cases hrun <;> rfl
      have hindex : batch.index = IdIndex.build batch.docs →
          after.index = IdIndex.build after.docs := by
        intro hbuilt
        cases found with
        | nil =>
            cases hrun
            exact hbuilt
        | cons place rest =>
            cases hrun
            rfl
      have htaken : taken = (takeAway batch.docs found).1 := by
        cases hrun
        rfl
      have hascending := ascending_places hfound
      obtain ⟨clause, hclause, hplaces⟩ := places_of_no_soughtId hsought hfound
      rw [places, hsought, hclause] at hfound
      refine ⟨clause, hclause, ?_, ?_, hindex⟩
      · rintro rfl
        have hall : found = placesWhere (Filter.selects clause) 0 batch.docs :=
          hplaces
        have hparts := partitionAt_placesWhere
          (Filter.selects clause) 0 batch.docs
        rw [← hall, partitionAt_eq_takeAway hascending] at hparts
        exact ⟨decided_of_placesFrom hfound,
          htaken.trans (congrArg Prod.fst hparts),
          hdocs.trans (congrArg Prod.snd hparts)⟩
      · rintro rfl
        have hfirst : found =
            (batch.docs.findIdx? (Filter.selects clause)).toList := hplaces
        have hparts := takeAway_findIdx? (Filter.selects clause) batch.docs
        rw [← hfirst] at hparts
        exact ⟨decided_of_firstPlaceFrom hfound,
          htaken.trans (congrArg Prod.fst hparts),
          hdocs.trans (congrArg Prod.snd hparts)⟩

/-- A document with a score. -/
def scored (id : String) (score : Int) : Value :=
  .object [(idKey, .string id), ("score", .ofInt score)]

def scores : List Value :=
  [scored "a" 1, scored "b" 5, scored "c" 2, scored "d" 5]

def scoreOfFive : Value := .object [("score", .ofInt 5)]

/-- Two of four documents are taken away, or the first of the two. -/
theorem delete_partitions_scoreOfFive :
    (∀ s, scoreOfFive ≠ Filter.ofId s) ∧
      (∃ after, exec (delete scoreOfFive true)
          (.ofDocs scores Session.nowhere.ids) =
          (.ok [scored "b" 5, scored "d" 5], after) ∧
        (after.docs = scores.filter fun doc => !Filter.selects scoreOfFive doc) ∧
        after.index = IdIndex.build after.docs) ∧
      ∃ after, exec (delete scoreOfFive false)
        (.ofDocs scores Session.nowhere.ids) =
          (.ok [scored "b" 5], after) ∧
        after.docs = scores.eraseP (Filter.selects scoreOfFive) ∧
        after.index = IdIndex.build after.docs := by
  have hfilter : ∀ s, scoreOfFive ≠ Filter.ofId s := by
    intro s h
    simp [scoreOfFive, Filter.ofId, idKey] at h
  have hmany :
      (exec (delete scoreOfFive true) (.ofDocs scores Session.nowhere.ids)).1 =
      .ok [scored "b" 5, scored "d" 5] := by
    decide +kernel
  have hone :
      (exec (delete scoreOfFive false) (.ofDocs scores Session.nowhere.ids)).1 =
      .ok [scored "b" 5] := by
    decide +kernel
  refine ⟨hfilter, ?_, ?_⟩
  · cases hrun : exec (delete scoreOfFive true)
      (.ofDocs scores Session.nowhere.ids) with
    | mk outcome after =>
        rw [hrun] at hmany
        cases hmany
        obtain ⟨clause, hclause, hall, -, hindex⟩ :=
          delete_partitions hfilter hrun
        cases hclause
        exact ⟨after, rfl, (hall rfl).2.2, hindex rfl⟩
  · cases hrun : exec (delete scoreOfFive false)
      (.ofDocs scores Session.nowhere.ids) with
    | mk outcome after =>
        rw [hrun] at hone
        cases hone
        obtain ⟨clause, hclause, -, hfirst, hindex⟩ :=
          delete_partitions hfilter hrun
        cases hclause
        exact ⟨after, rfl, (hfirst rfl).2.2, hindex rfl⟩

end DocumentStore.Write
