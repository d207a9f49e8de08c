import DocumentStore.Proofs.IdIndex
import DocumentStore.Proofs.Write.Step

/-!
# Documents with proper identifiers

The documents of a collection are keyed if each of them is a well-formed object
with an identifier that is not null, and no two identifiers have the same text.
That no write breaks this depends on the index, which says whether an identifier
is new; so the invariant of a batch is that its documents are keyed and its
index is exact.

Both are relative to a set of texts, because a change may replace an identifier
by another that is alike to it, and then the index still has the text of the old
one. The texts of strings are safe from this: no write, whatever it is, breaks
the invariant for them. For other texts it lasts as long as changes leave
identifiers as they are.
-/

namespace DocumentStore

open Relation

variable {T : String → Prop} {docs : List Value} {doc changed id : Value}
  {place : Nat}

/-- Two documents do not have the same text in `T` as their identifiers. -/
def Value.Apart (T : String → Prop) (a b : Value) : Prop :=
  ∀ text, T text → a.idText? = some text → b.idText? ≠ some text

namespace Value

/-- Only one document has a certain text. -/
theorem eq_of_apart (h : docs.Pairwise (Apart T)) {i j : Nat} {a b : Value}
    {text : String} (hT : T text) (hi : docs[i]? = some a)
    (hj : docs[j]? = some b) (ha : a.idText? = some text)
    (hb : b.idText? = some text) : i = j := by
  obtain ⟨hilt, rfl⟩ := List.getElem?_eq_some_iff.mp hi
  obtain ⟨hjlt, rfl⟩ := List.getElem?_eq_some_iff.mp hj
  have hpair := List.pairwise_iff_getElem.mp h
  rcases Nat.lt_trichotomy i j with hlt | heq | hlt
  · exact absurd hb (hpair i j hilt hjlt hlt text hT ha)
  · exact heq
  · exact absurd ha (hpair j i hjlt hilt hlt text hT hb)

theorem apart_append (h : docs.Pairwise (Apart T))
    (hnew : ∀ d ∈ docs, d.Apart T doc) :
    (docs ++ [doc]).Pairwise (Apart T) := by
  rw [List.pairwise_append]
  refine ⟨h, List.pairwise_singleton _ _, ?_⟩
  intro d hd e he
  rw [List.mem_singleton.mp he]
  exact hnew d hd

/-- A document may change in its place if the texts are left alone. -/
theorem apart_set (h : docs.Pairwise (Apart T)) (hget : docs[place]? = some doc)
    (htexts : ∀ text,
      T text → (changed.idText? = some text ↔ doc.idText? = some text)) :
    (docs.set place changed).Pairwise (Apart T) := by
  rw [List.pairwise_iff_getElem]
  intro i j hi hj hij
  rw [List.length_set] at hi hj
  have hpair := List.pairwise_iff_getElem.mp h i j hi hj hij
  obtain ⟨hplace, hdoc⟩ := List.getElem?_eq_some_iff.mp hget
  intro text hT ha hb
  rw [List.getElem_set] at ha hb
  split at ha
  · next hpi =>
      subst hpi
      rw [if_neg (by omega)] at hb
      rw [htexts text hT, ← hdoc] at ha
      exact hpair text hT ha hb
  · split at hb
    · next hpj =>
        subst hpj
        rw [htexts text hT, ← hdoc] at hb
        exact hpair text hT ha hb
    · exact hpair text hT ha hb

end Value

structure Keyed (T : String → Prop) (docs : List Value) : Prop where
  identified : ∀ doc ∈ docs, doc.Identified
  apart : docs.Pairwise (Value.Apart T)

/-- No two documents have the same string as their identifiers. -/
abbrev WellKeyed (docs : List Value) : Prop := Keyed IdIndex.IsStringText docs

namespace Keyed

theorem nil : Keyed T [] := ⟨by simp, List.Pairwise.nil⟩

theorem storable (h : Keyed T docs) : ∀ doc ∈ docs, doc.Storable :=
  fun doc hdoc => (h.identified doc hdoc).toStorable

theorem of_sublist {left : List Value} (h : Keyed T docs)
    (hsub : left.Sublist docs) : Keyed T left :=
  ⟨fun doc hdoc => h.identified doc (hsub.subset hdoc), h.apart.sublist hsub⟩

theorem append (h : Keyed T docs) (hdoc : doc.Identified)
    (hnew : ∀ d ∈ docs, d.Apart T doc) :
    Keyed T (docs ++ [doc]) := by
  refine ⟨?_, Value.apart_append h.apart hnew⟩
  intro d hd
  rcases List.mem_append.mp hd with hd | hd
  · exact h.identified d hd
  · rw [List.mem_singleton.mp hd]
    exact hdoc

theorem set (h : Keyed T docs) (hget : docs[place]? = some doc)
    (hchanged : changed.Identified)
    (htexts : ∀ text,
      T text → (changed.idText? = some text ↔ doc.idText? = some text)) :
    Keyed T (docs.set place changed) := by
  refine ⟨?_, Value.apart_set h.apart hget htexts⟩
  intro d hd
  rcases List.mem_or_eq_of_mem_set hd with hd | rfl
  · exact h.identified d hd
  · exact hchanged

theorem eq_of_text (h : Keyed T docs) {i j : Nat} {a b : Value} {text : String}
    (hT : T text) (hi : docs[i]? = some a) (hj : docs[j]? = some b)
    (ha : a.idText? = some text) (hb : b.idText? = some text) : i = j :=
  Value.eq_of_apart h.apart hT hi hj ha hb

end Keyed

/-! ## The invariant of a batch -/

structure Batch.Sound (T : String → Prop) (batch : Batch) : Prop where
  keyed : Keyed T batch.docs
  exact : IdIndex.Exact T batch.index batch.docs

/-- The identifiers of the documents, in order. -/
def Batch.identifiers (batch : Batch) : List (Option Value) :=
  batch.docs.map (·.field? idKey)

namespace Batch.Sound

variable {batch batch' : Batch} {ids : IdSupply}

theorem ofDocs (h : Keyed T docs) (ids : IdSupply) :
    (Batch.ofDocs docs ids).Sound T :=
  ⟨h, IdIndex.exact_build T docs⟩

theorem supply (h : batch.Sound T) (ids : IdSupply) :
    Batch.Sound T { batch with ids } :=
  ⟨h.keyed, h.exact⟩

theorem append (h : batch.Sound T) (hdoc : doc.Storable)
    (hid : doc.field? idKey = some id) (hnull : id.isNull = false)
    (hnew : batch.index.contains id = false) :
    Batch.Sound T { batch with
      docs := batch.docs ++ [doc],
        index := batch.index.enter id batch.docs.length } := by
  refine ⟨h.keyed.append ⟨hdoc, id, hid, hnull⟩ ?_,
    h.exact.enter hid fun _ => hnew⟩
  intro d hd text hT hdtext hdoctext
  have htext := Value.idText?_of_field? hid
  rw [htext, Option.some.injEq] at hdoctext
  rw [IdIndex.contains, Option.isSome_eq_false_iff,
    Option.isNone_iff_eq_none] at hnew
  subst hdoctext
  exact h.exact.of_find?_eq_none hT hnew hd hdtext

theorem set (h : batch.Sound T) (hget : batch.docs[place]? = some doc)
    (hchanged : changed.Identified)
    (htexts : ∀ text,
      T text → (changed.idText? = some text ↔ doc.idText? = some text)) :
    Batch.Sound T { batch with docs := batch.docs.set place changed } :=
  ⟨h.keyed.set hget hchanged htexts, h.exact.set hget htexts⟩

theorem delete {left : List Value} (h : batch.Sound T)
    (hsub : left.Sublist batch.docs) :
    Batch.Sound T { batch with docs := left, index := IdIndex.build left } :=
  ⟨h.keyed.of_sublist hsub, IdIndex.exact_build T left⟩

/-- The invariant is about the identifiers, in their order, and the index
only. -/
theorem of_identifiers (h : batch.Sound T) (hindex : batch'.index = batch.index)
    (hidentified : ∀ doc ∈ batch'.docs, doc.Identified)
    (hids : batch'.identifiers = batch.identifiers) : batch'.Sound T := by
  have htexts : batch'.docs.map Value.idText? =
      batch.docs.map Value.idText? := by
    have hmap : ∀ docs : List Value, docs.map Value.idText? =
        (docs.map fun doc => doc.field? idKey).map
          (Option.map Value.compact) := by
      intro docs
      rw [List.map_map]
      rfl
    rw [hmap, hmap]
    exact congrArg (List.map (Option.map Value.compact)) hids
  have hapart : ∀ docs : List Value, docs.Pairwise (Value.Apart T) ↔
      (docs.map Value.idText?).Pairwise fun a b => ∀ text, T text →
        a = some text → b ≠ some text := by
    intro docs
    rw [List.pairwise_map]
    rfl
  refine ⟨⟨hidentified, ?_⟩, ?_⟩
  · rw [hapart, htexts, ← hapart]
    exact h.keyed.apart
  · intro text hT
    have hfind : ∀ docs : List Value,
        (docs.findIdx? fun doc => doc.idText? = some text) =
        (docs.map Value.idText?).findIdx? fun found => found = some text := by
      intro docs
      rw [List.findIdx?_map]
      rfl
    rw [hindex, h.exact text hT, hfind, hfind, htexts]

/-- For the texts of strings every step of a write preserves the invariant. -/
theorem step (h : batch.Sound IdIndex.IsStringText)
    (hstep : batch.Step batch') :
    batch'.Sound IdIndex.IsStringText := by
  cases hstep with
  | supply ids => exact h.supply ids
  | append id doc hdoc hid hnull hnew => exact h.append hdoc hid hnull hnew
  | replace now c place doc changed hc hget happly =>
      have hdoc := h.keyed.identified doc (List.mem_of_getElem? hget)
      refine h.set hget (Change.identified_apply hc hdoc happly) ?_
      rintro text ⟨s, rfl⟩
      rw [Value.idText?_eq_string_iff, Value.idText?_eq_string_iff]
      obtain ⟨id, hid, -⟩ := hdoc.hasId
      exact Change.field?_apply_eq_string_iff hc hdoc.wellFormed hid happly
  | delete left hsub => exact h.delete hsub

theorem steps (h : batch.Sound IdIndex.IsStringText)
    (hsteps : batch.Steps batch') :
    batch'.Sound IdIndex.IsStringText := by
  induction hsteps with
  | refl => exact h
  | tail _ hstep ih => exact ih.step hstep

end Batch.Sound

/-! ## Documents that a revision gives -/

/-- The document that a revision gives, before or after, has an identifier. -/
theorem Write.identified_revise {now : Instant} {c : Change} {filter v : Value}
    {upsert : Bool} {batch after : Batch} {revision : Write.Revision}
    (hc : c.WellFormed) (hfilter : filter.WellFormed)
    (hbatch : batch.Sound IdIndex.IsStringText)
    (hrun : exec (Write.revise now filter c upsert) batch =
      (.ok revision, after))
    (hv : revision.before = some v ∨ revision.after = some v) :
    v.Identified := by
  have hafter : after.Sound IdIndex.IsStringText := by
    have hsteps :
        batch.Steps (exec (Write.revise now filter c upsert) batch).2 :=
      Write.leads_revise hc hfilter upsert batch
    rw [hrun] at hsteps
    exact hbatch.steps hsteps
  rw [Write.exec_revise] at hrun
  split at hrun
  · cases hrun
  · split at hrun
    · next place before hfound =>
        have hget := (Write.getElem?_of_found hfound).2
        have hbefore :=
          hbatch.keyed.identified before (List.mem_of_getElem? hget)
        split at hrun
        · cases hrun
        · next changed happly =>
            have hchanged := Change.identified_apply hc hbefore happly
            have hgiven : revision.before = some before ∧
                revision.after = some changed := by
              split at hrun
              · cases hrun
                exact ⟨rfl, rfl⟩
              · cases hrun
                exact ⟨rfl, rfl⟩
            rw [hgiven.1, hgiven.2] at hv
            rcases hv with hv | hv
            · cases hv
              exact hbefore
            · cases hv
              exact hchanged
    · split at hrun
      · rw [exec_bind] at hrun
        split at hrun
        · cases hrun
          rcases hv with hv | hv
          · cases hv
          · obtain ⟨place, -, hget⟩ := Option.bind_eq_some_iff.mp hv
            exact hafter.keyed.identified v (List.mem_of_getElem? hget)
        · cases hrun
      · cases hrun
        rcases hv with hv | hv
        · cases hv
        · cases hv

end DocumentStore
