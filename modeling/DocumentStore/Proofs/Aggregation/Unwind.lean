import DocumentStore.Aggregation.Stage
import DocumentStore.Proofs.Path.Frame
import DocumentStore.Proofs.Run

/-!
# Unwinding at a path

A document is unwound into a block of documents, one for each element of the
array at a path. A copy is the document with the element assigned in the place
of the array. Where the array was found an element can be assigned, so no copy
fails, whatever containers the path leads through; and nothing is padded on the
way, so a copy reads as the document does at every path that diverges
(`carries_of_set`). The output of the stage is the blocks of the documents, one
after the other.
-/

namespace DocumentStore.Aggregation

open DocumentStore.Path (Diverge)

variable {path : Path} {keepEmpty : Bool} {doc item copy : Value}

/-- A copy of a document has an element at a path and reads like the document
elsewhere. -/
structure Carries (path : Path) (doc item copy : Value) : Prop where
  here : path.get copy = some item
  elsewhere : ∀ q : Path, Diverge path.segments q.segments →
    q.get copy = q.get doc

/-- The block of documents into which a document is unwound: a copy for each
element of the array at a path, and the document itself where no array is. For
an empty array there is nothing, or the document without it if such documents
are kept. -/
inductive Unwinds (path : Path) (keepEmpty : Bool) (doc : Value) :
    List Value → Prop
  | elements {items copies : List Value}
      (hget : path.get doc = some (.array items))
      (hne : items ≠ [])
      (hcopies : List.Forall₂ (Carries path doc) items copies) :
      Unwinds path keepEmpty doc copies
  | empty (hget : path.get doc = some (.array [])) :
      Unwinds path keepEmpty doc
        (if keepEmpty then [(path.remove doc).2] else [])
  | other (hget : ∀ items, path.get doc ≠ some (.array items)) :
      Unwinds path keepEmpty doc [doc]

theorem carries_of_set {before : Value} (hget : path.get doc = some before)
    (hset : path.set item doc = .ok copy) : Carries path doc item copy := by
  have hassign := Path.set_eq_ok_iff.mp hset
  exact ⟨Path.lookup_of_assign hassign,
    fun q hq => Path.lookup_of_diverge hget hassign hq⟩

theorem exists_copies {items : List Value}
    (hget : path.get doc = some (.array items)) :
    ∃ copies, (items.mapM fun item => path.set item doc) = .ok copies ∧
      List.Forall₂ (Carries path doc) items copies := by
  have hset : ∀ item, ∃ copy, path.set item doc = .ok copy := by
    intro item
    obtain ⟨copy, hcopy⟩ := Path.exists_assign_of_lookup hget item
    exact ⟨copy, Path.set_eq_ok_iff.mpr hcopy⟩
  choose copyOf hcopyOf using hset
  have hcopies : List.Forall₂ (fun item copy => path.set item doc =
      .ok copy) items
      (items.map copyOf) :=
    List.forall₂_map_right_iff.mpr
      (List.forall₂_same.mpr fun item _ => hcopyOf item)
  exact ⟨_, mapM_eq_ok.mpr hcopies,
    hcopies.imp fun _ _ hset => carries_of_set hget hset⟩

theorem exists_block (path : Path) (keepEmpty : Bool) (doc : Value) :
    ∃ block, unwind path keepEmpty doc = .ok block ∧
      Unwinds path keepEmpty doc block := by
  rw [unwind]
  split
  · next hget => exact ⟨_, rfl, .empty hget⟩
  · next items hne hget =>
      obtain ⟨copies, hmap, hcopies⟩ := exists_copies hget
      exact ⟨copies, hmap,
        .elements hget (fun hnil => hne (hnil ▸ rfl)) hcopies⟩
  · next hother => exact ⟨_, rfl, .other hother⟩

/-- Unwinding never fails. Its output is the blocks into which the documents are
unwound, in the order of the documents. -/
theorem unwind_expands (path : Path) (keepEmpty : Bool) (docs : List Value) :
    ∃ blocks, (Stage.unwind path keepEmpty).run docs = .ok blocks.flatten ∧
      List.Forall₂ (Unwinds path keepEmpty) docs blocks := by
  choose block hblock hunwinds using exists_block path keepEmpty
  have hblocks : docs.mapM (unwind path keepEmpty) = .ok (docs.map block) :=
    mapM_eq_ok.mpr (List.forall₂_map_right_iff.mpr
      (List.forall₂_same.mpr fun doc _ => hblock doc))
  refine ⟨docs.map block, ?_, ?_⟩
  · rw [Stage.run, hblocks]
    rfl
  · exact List.forall₂_map_right_iff.mpr
      (List.forall₂_same.mpr fun doc _ => hunwinds doc)

end DocumentStore.Aggregation
