import DocumentStore.Proofs.Session
import DocumentStore.Proofs.Write.Places
import DocumentStore.Proofs.Write.Renew

/-!
# An update, document by document

An update finds its places before it changes anything, and it finds none of them
twice. So what stands at a place afterwards depends on the document that stood
there and on which of the documents the filter selected as they were: that a
change makes other documents fulfil the filter, or fulfil it no more, has no
influence. Nor has the order of the places.

Which documents an update considers is said in two ways that belong together:
`considered` lists them, and `Considers` tells of a place whether its document
is one of them.

A filter that asks for a string as the identifier is left out here, because it
is not asked of the documents.
-/

namespace DocumentStore.Write

variable {now : Instant} {c : Change} {filter clause : Value}
  {docs : List Value}
  {batch after : Batch} {many : Bool} {found : List Nat}

/-- The documents that are considered: all that the clause selects, or the first
of them. -/
def considered (clause : Value) (many : Bool)
    (docs : List Value) : List Value :=
  if many then docs.filter (Filter.selects clause)
  else (docs.find? (Filter.selects clause)).toList

/-- The document at a place is considered: the clause selects it, and none
before it if only the first is wanted. -/
def Considers (clause : Value) (many : Bool) (docs : List Value)
    (i : Nat) : Prop :=
  (docs[i]?).any (Filter.selects clause) = true ∧
    (many = false → ∀ j < i, (docs[j]?).any (Filter.selects clause) = false)

theorem considers_all {i : Nat} :
    Considers clause true docs i ↔
      (docs[i]?).any (Filter.selects clause) = true :=
  and_iff_left nofun

theorem considers_first {i : Nat} :
    Considers clause false docs i ↔
      docs.findIdx? (Filter.selects clause) = some i := by
  rw [List.findIdx?_eq_some_iff_getElem]
  constructor
  · rintro ⟨hselects, hbefore⟩
    obtain ⟨doc, hget, hdoc⟩ := (Option.any_eq_true _ _).mp hselects
    obtain ⟨hi, rfl⟩ := List.getElem?_eq_some_iff.mp hget
    refine ⟨hi, hdoc, fun j hj => ?_⟩
    have hj' := hbefore rfl j hj
    rw [List.getElem?_eq_getElem (Nat.lt_trans hj hi), Option.any_some] at hj'
    simp [hj']
  · rintro ⟨hi, hdoc, hbefore⟩
    refine ⟨by rwa [List.getElem?_eq_getElem hi], fun _ j hj => ?_⟩
    rw [List.getElem?_eq_getElem (Nat.lt_trans hj hi), Option.any_some]
    simpa using hbefore j hj

/-- The places that a filter finds are those of the documents that are
considered. -/
theorem places_considered (hsought : soughtId? filter = none)
    (h : places batch filter many = .ok found) :
    ∃ clause, Filter.ofValue filter = .ok clause ∧
      (∀ i, i ∈ found ↔ Considers clause many batch.docs i) ∧
      found.filterMap (batch.docs[·]?) = considered clause many batch.docs := by
  obtain ⟨clause, hclause, rfl⟩ := places_of_no_soughtId hsought h
  refine ⟨clause, hclause, ?_⟩
  cases many with
  | true =>
      exact ⟨fun i => mem_placesWhere.trans considers_all.symm,
        filterMap_placesWhere _ 0 _⟩
  | false =>
      refine ⟨fun i => Option.mem_toList.trans considers_first.symm, ?_⟩
      show ((batch.docs.findIdx? _).toList.filterMap _) =
          (batch.docs.find? _).toList
      rw [List.find?_eq_bind_findIdx?_getElem?]
      cases batch.docs.findIdx? (Filter.selects clause) with
      | none => rfl
      | some first =>
          rw [Option.toList_some, List.filterMap_cons, Option.bind_some]
          cases batch.docs[first]? with
          | none => rfl
          | some doc => rfl

/-- Each place is a place of a document, so there are as many places as
documents that are considered. -/
theorem length_considered
    (hplaces : ∀ i, i ∈ found ↔ Considers clause many docs i) :
    (found.filterMap (docs[·]?)).length = found.length := by
  rw [List.filterMap_length_eq_length]
  intro i hi
  obtain ⟨doc, hget, -⟩ := (Option.any_eq_true _ _).mp ((hplaces i).mp hi).1
  rw [hget]
  rfl

/-- An update that succeeds maps each document it considered to what the change
makes of it, unless that is the same, and leaves all others alone. It counts
those that it considered and those of them that it rewrote. -/
theorem update_pointwise {outcome : Outcome}
    (hfilter : ∀ s, filter ≠ Filter.ofId s)
    (h : exec (update now filter c many false) batch = (.ok outcome, after)) :
    ∃ clause, Filter.ofValue filter = .ok clause ∧
      after.docs.length = batch.docs.length ∧
      (∀ i doc, batch.docs[i]? = some doc →
        (Considers clause many batch.docs i → ∃ changed,
            c.apply now doc = .ok changed ∧
          after.docs[i]? = some (if changed.same doc then doc else changed)) ∧
        (¬ Considers clause many batch.docs i → after.docs[i]? = some doc)) ∧
      outcome.matched = (considered clause many batch.docs).length ∧
      outcome.modified = (considered clause many batch.docs).countP
        (c.rewrites now) ∧
      outcome.upsertedId = none := by
  have hsought : soughtId? filter = none := by
    refine Option.eq_none_iff_forall_ne_some.mpr fun id hid => ?_
    obtain ⟨s, -, heq⟩ := Filter.soughtId?_eq_some hid
    exact hfilter s heq
  rw [exec_update] at h
  cases hfound : places batch filter many with
  | error e =>
      rw [hfound] at h
      cases h
  | ok found =>
      rw [hfound] at h
      dsimp only at h
      have hnodup := nodup_places hfound
      obtain ⟨clause, hclause, hplaces, hdocs⟩ :=
        places_considered hsought hfound
      cases hchange : exec (change now c found) batch with
      | mk result t =>
          rw [hchange] at h
          cases result with
          | error e => cases h
          | ok n =>
              obtain ⟨happly, hn, hrenewed⟩ := change_eq_ok hnodup hchange
              have hlength := length_considered hplaces
              rw [hdocs] at hn hlength
              rw [Bool.and_false] at h
              cases h
              subst hrenewed
              refine ⟨clause, hclause, length_renew _ _ _, ?_,
                hlength.symm, hn, rfl⟩
              intro i doc hget
              have hafter :=
                getElem?_renew (f := c.version now) hnodup batch.docs i
              rw [hget] at hafter
              constructor
              · intro hi
                obtain ⟨changed, happly⟩ :=
                  happly i ((hplaces i).mpr hi) doc hget
                refine ⟨changed, happly, ?_⟩
                rw [if_pos ((hplaces i).mpr hi), Option.map_some,
                    Change.version_of_apply happly]
                  at hafter
                exact hafter
              · intro hi
                rwa [if_neg fun hmem => hi ((hplaces i).mp hmem)] at hafter

/-- Two documents with a small number, one of which is two, and one with a large
number. -/
def numbered : List Value :=
  [.object [(idKey, .string "a"), ("n", .ofInt 1)],
    .object [(idKey, .string "b"), ("n", .ofInt 2)],
    .object [(idKey, .string "c"), ("n", .ofInt 5)]]

def numberBelowThree : Value := .object [("n", .object [("$lt", .ofInt 3)])]

def setNumberTwo : Change :=
  .update (.object [("$set", .object [("n", .ofInt 2)])])

/-- Setting all small numbers to two finds two documents and writes one of
them. -/
theorem update_pointwise_numberBelowThree :
    (∀ s, numberBelowThree ≠ Filter.ofId s) ∧ ∃ after,
      exec (update Session.epoch numberBelowThree setNumberTwo true false)
          (.ofDocs numbered Session.nowhere.ids) = (.ok ⟨2, 1, none⟩, after) ∧
        ∃ clause, Filter.ofValue numberBelowThree = .ok clause ∧
          after.docs.length = numbered.length ∧
          (∀ i doc, numbered[i]? = some doc →
            (Considers clause true numbered i → ∃ changed,
              setNumberTwo.apply Session.epoch doc = .ok changed ∧
                after.docs[i]? =
                  some (if changed.same doc then doc else changed)) ∧
            (¬ Considers clause true numbered i → after.docs[i]? = some doc)) ∧
          2 = (considered clause true numbered).length ∧
          1 = (considered clause true numbered).countP
            (setNumberTwo.rewrites Session.epoch) := by
  have hfilter : ∀ s, numberBelowThree ≠ Filter.ofId s := by
    intro s h
    simp [numberBelowThree, Filter.ofId] at h
  have hok :
      (exec (update Session.epoch numberBelowThree setNumberTwo true false)
      (.ofDocs numbered Session.nowhere.ids)).1 = .ok ⟨2, 1, none⟩ := by
    decide +kernel
  cases hrun : exec (update Session.epoch numberBelowThree setNumberTwo
      true false)
      (.ofDocs numbered Session.nowhere.ids) with
  | mk outcome after =>
      rw [hrun] at hok
      cases hok
      obtain ⟨clause, hclause, hlength, hplaces, hmatched, hmodified, -⟩ :=
        update_pointwise hfilter hrun
      exact ⟨hfilter, after, rfl, clause, hclause, hlength, hplaces,
        hmatched, hmodified⟩

end DocumentStore.Write
