import DocumentStore.Proofs.Fields
import DocumentStore.Proofs.Run
import DocumentStore.Storage.Folder
import Mathlib.Logic.Relation

/-!
# Changes of the directory

What is found under a name is what is stored there, unless there is a directory
and the name is too long for it. `of_write` and `of_remove` say what a change
that went well has made of the entries.

`Touches` is one change, relative to the names of the files that may be written
and removed. What is stored under other names is left as it was, by one change
and by any number of them.
-/

namespace DocumentStore.Folder

open Relation

variable {names : String → Prop} {folder before after : Folder}
  {name other content : String}
  {entry : Entry} {wasThere : Bool}

/-! ## Looking into it -/

/-- What is under a name in the directory. There is nothing if the directory is
not there. -/
def stored? (folder : Folder) (name : String) : Option Entry :=
  Fields.get? name (folder.getD [])

theorem find_eq (folder : Folder) (name : String) :
    folder.find name =
      if folder.isSome = true ∧ greatestName < name.utf8ByteSize then .error .io
        else .ok (folder.stored? name) := by
  cases folder with
  | none => rfl
  | some entries => simp [find, stored?]

theorem find_of_short (folder : Folder) (h : name.utf8ByteSize ≤ greatestName) :
    folder.find name = .ok (folder.stored? name) := by
  rw [find_eq, if_neg fun hlong => Nat.not_lt.mpr h hlong.2]

/-- What is found under a name depends on what is there. A name that is too long
makes a difference only if the directory is made in between. -/
theorem find_congr (hentry : after.stored? name = before.stored? name)
    (hthere : before.isSome = true → after.isSome = true)
    (hname : before.isSome = true ∨ name.utf8ByteSize ≤ greatestName) :
    after.find name = before.find name := by
  rcases hname with hsome | hlength
  · rw [find_eq, find_eq, hentry, hsome, hthere hsome]
  · rw [find_of_short after hlength, find_of_short before hlength, hentry]

theorem find_made (h : folder.find name = .ok (some entry)) :
    folder.made.find name = .ok (some entry) := by
  cases folder with
  | none => cases h
  | some entries => exact h

theorem find_made_ne (h : ∀ entry, folder.find name ≠ .ok (some entry)) :
    ∀ entry, folder.made.find name ≠ .ok (some entry) := by
  cases folder with
  | none =>
      intro entry hfind
      simp only [made, Option.getD_none, find] at hfind
      split at hfind
      · cases hfind
      · cases hfind
  | some entries => exact h

theorem io_of_find {e : Error} (h : folder.find name = .error e) : e = .io := by
  cases folder with
  | none => cases h
  | some entries =>
      rw [find] at h
      split at h
      · exact (Except.error.inj h).symm
      · cases h

/-! ## Writing and removing -/

theorem of_write (h : folder.write name content = .ok after) :
    name.utf8ByteSize ≤ greatestName ∧
      after = some (Fields.insert name (.text content) (folder.getD [])) := by
  obtain ⟨entry, hfind, h⟩ := bind_eq_ok.mp h
  have hlength : name.utf8ByteSize ≤ greatestName := by
    rw [find_eq] at hfind
    split at hfind
    · cases hfind
    · next hshort => exact Nat.not_lt.mp fun hlong => hshort ⟨rfl, hlong⟩
  split at h
  · cases h
  · exact ⟨hlength, (Except.ok.inj h).symm⟩

theorem of_remove (h : folder.remove name = .ok (wasThere, after)) :
    after = folder ∨ after = folder.map (Fields.erase name) := by
  obtain ⟨entry, -, h⟩ := bind_eq_ok.mp h
  split at h
  · cases h
    exact .inl rfl
  · cases h
  · cases h
    exact .inr rfl

theorem find_write (h : folder.write name content = .ok after) :
    after.find name = .ok (some (.text content)) := by
  obtain ⟨hlength, rfl⟩ := of_write h
  rw [find_of_short _ hlength]
  exact congrArg Except.ok (Fields.get?_insert_self _ _ _)

theorem io_of_write {e : Error}
    (h : folder.write name content = .error e) : e = .io := by
  rcases bind_eq_error.mp h with hfind | ⟨before, -, h⟩
  · exact io_of_find hfind
  · split at h
    · exact (Except.error.inj h).symm
    · cases h

/-! ## Changes -/

/-- A change of a directory: it is made, or a file of one of these names is
written or removed. -/
inductive Touches (names : String → Prop) (before : Folder) : Folder → Prop
  | make : Touches names before before.made
  | write {name content : String} {after : Folder} (hname : names name)
      (hwrite : before.write name content = .ok after) :
      Touches names before after
  | remove {name : String} {wasThere : Bool} {after : Folder}
      (hname : names name)
      (hremove : before.remove name = .ok (wasThere, after)) :
      Touches names before after

/-- Other names are left alone, and a directory that is there stays. -/
theorem Touches.frame (h : Touches names before after)
    (hother : ¬ names other) :
    after.stored? other = before.stored? other ∧
      (before.isSome = true → after.isSome = true) := by
  have hne : ∀ name, names name → name ≠ other := by
    rintro name hname rfl
    exact hother hname
  cases h with
  | make => exact ⟨rfl, fun _ => rfl⟩
  | @write name _ _ hname hwrite =>
      obtain ⟨-, rfl⟩ := of_write hwrite
      exact ⟨Fields.get?_insert_of_ne (hne name hname), fun _ => rfl⟩
  | @remove name _ _ hname hremove =>
      rcases of_remove hremove with rfl | rfl
      · exact ⟨rfl, id⟩
      · cases before with
        | none => exact ⟨rfl, id⟩
        | some entries => exact ⟨Fields.get?_erase_of_ne (hne name hname), id⟩

theorem frame_of_touches (h : ReflTransGen (Touches names) before after)
    (hother : ¬ names other) :
    after.stored? other = before.stored? other ∧
      (before.isSome = true → after.isSome = true) := by
  induction h with
  | refl => exact ⟨rfl, id⟩
  | tail _ hstep ih =>
      obtain ⟨hentry, hthere⟩ := hstep.frame hother
      exact ⟨hentry.trans ih.1, hthere ∘ ih.2⟩

end DocumentStore.Folder
