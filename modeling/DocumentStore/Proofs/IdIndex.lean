import DocumentStore.IdIndex
import DocumentStore.Proofs.Json.RoundTrip
import DocumentStore.Value.Identity

/-!
# What the index of identifiers leads to

The index is exact for a text if it leads to the first document whose identifier
has that text, and to nothing if there is none. An index that is built is exact
for every text. One that is kept up while documents are added and changed is
exact for as long as changes leave the texts alone, so exactness is relative to
a set of texts: those of strings are never changed, and all the others may be.
-/

namespace DocumentStore

namespace Value

/-- The text of the identifier of a document. -/
def idText? (doc : Value) : Option String := (doc.field? idKey).map compact

theorem idText?_of_field? {doc id : Value} (h : doc.field? idKey = some id) :
    doc.idText? = some id.compact := congrArg (Option.map compact) h

theorem idText?_eq_string_iff {doc : Value} {s : String} :
    doc.idText? = some (Value.string s).compact ↔
      doc.field? idKey = some (.string s) := by
  rw [idText?, Option.map_eq_some_iff]
  refine ⟨?_, fun h => ⟨_, h, rfl⟩⟩
  rintro ⟨id, hid, htext⟩
  rw [hid, compact_eq_string_iff.mp htext]

end Value

namespace IdIndex

variable {T : String → Prop} {index : IdIndex} {docs : List Value}
  {doc changed id : Value}
  {place : Nat} {text : String}

/-- For the texts in `T` the index leads to the first document with that
text. -/
def Exact (T : String → Prop) (index : IdIndex) (docs : List Value) : Prop :=
  ∀ text, T text → Fields.get? text index = docs.findIdx? fun doc =>
    doc.idText? = some text

theorem get?_buildFrom (text : String) (place : Nat) (docs : List Value) :
    Fields.get? text (buildFrom place docs) =
      (docs.findIdx? fun doc => doc.idText? = some text).map (· + place) := by
  induction docs generalizing place with
  | nil => rfl
  | cons doc rest ih =>
      have hshift : ∀ found : Option Nat,
          found.map (· + (place + 1)) =
            (found.map (· + 1)).map (· + place) := by
        intro found
        cases found with
        | none => rfl
        | some i =>
            simp only [Option.map_some, Option.some.injEq]
            omega
      rw [buildFrom, List.findIdx?_cons]
      cases hid : doc.field? idKey with
      | none =>
          have htext : doc.idText? = none := by
            rw [Value.idText?, hid, Option.map_none]
          simp only [htext, reduceCtorEq, decide_false,
            Bool.false_eq_true, if_false]
          rw [ih, hshift]
      | some id =>
          have htext := Value.idText?_of_field? hid
          simp only [Fields.get?, htext, Option.some.injEq, decide_eq_true_eq]
          split
          · rw [Option.map_some, Nat.zero_add]
          · rw [ih, hshift]

theorem exact_build (T : String → Prop) (docs : List Value) :
    Exact T (build docs) docs := by
  intro text _
  rw [build, get?_buildFrom]
  exact Option.map_id'

theorem Exact.enter (h : Exact T index docs) (hid : doc.field? idKey = some id)
    (hnew : T id.compact → index.contains id = false) :
    Exact T (index.enter id docs.length) (docs ++ [doc]) := by
  have htext := Value.idText?_of_field? hid
  intro text hT
  rw [IdIndex.enter, List.findIdx?_append, ← h text hT,
    List.findIdx?_singleton, htext]
  by_cases heq : id.compact = text
  · subst heq
    have hnone : Fields.get? id.compact index = none := by
      have hcontains := hnew hT
      rwa [contains, find?, Option.isSome_eq_false_iff,
        Option.isNone_iff_eq_none] at hcontains
    rw [Fields.get?_insert_self, hnone]
    simp
  · rw [Fields.get?_insert_of_ne heq]
    simp [heq]

theorem findIdx?_set {p : Value → Bool} (hget : docs[place]? = some doc)
    (hp : p changed = p doc) :
    (docs.set place changed).findIdx? p = docs.findIdx? p := by
  induction docs generalizing place with
  | nil => cases hget
  | cons first rest ih =>
      cases place with
      | zero =>
          cases hget
          rw [List.set_cons_zero, List.findIdx?_cons, List.findIdx?_cons, hp]
      | succ place =>
          rw [List.getElem?_cons_succ] at hget
          rw [List.set_cons_succ, List.findIdx?_cons,
            List.findIdx?_cons, ih hget]

/-- A change in place keeps the index exact for the texts that it leaves
alone. -/
theorem Exact.set (h : Exact T index docs) (hget : docs[place]? = some doc)
    (htexts : ∀ text,
      T text → (changed.idText? = some text ↔ doc.idText? = some text)) :
    Exact T index (docs.set place changed) := by
  intro text hT
  rw [h text hT, findIdx?_set hget]
  exact decide_eq_decide.mpr (htexts text hT)

/-- What an exact index leads to has the identifier. -/
theorem Exact.of_find?_eq_some (h : Exact T index docs) (hT : T id.compact)
    (hfind : index.find? id = some place) :
    ∃ doc, docs[place]? = some doc ∧ doc.idText? = some id.compact := by
  rw [find?, h _ hT] at hfind
  obtain ⟨hplace, htext, -⟩ := List.findIdx?_eq_some_iff_getElem.mp hfind
  exact ⟨docs[place], List.getElem?_eq_getElem hplace, of_decide_eq_true htext⟩

/-- An identifier to which an exact index leads nowhere is no document's. -/
theorem Exact.of_find?_eq_none (h : Exact T index docs) (hT : T id.compact)
    (hfind : index.find? id = none) (hdoc : doc ∈ docs) :
    doc.idText? ≠ some id.compact := by
  rw [find?, h _ hT] at hfind
  exact of_decide_eq_false (List.findIdx?_eq_none_iff.mp hfind doc hdoc)

/-- The texts of strings. -/
def IsStringText (text : String) : Prop := ∃ s, text = (Value.string s).compact

/-- All texts. -/
def AnyText (_ : String) : Prop := True

/-- An index that is exact for strings finds a document by its string. -/
theorem Exact.find?_string (h : Exact IsStringText index docs) (s : String) :
    index.find? (.string s) = docs.findIdx? fun doc =>
      doc.field? idKey = some (.string s) := by
  rw [find?, h _ ⟨s, rfl⟩]
  congr 1
  funext doc
  exact decide_eq_decide.mpr Value.idText?_eq_string_iff

end IdIndex

end DocumentStore
