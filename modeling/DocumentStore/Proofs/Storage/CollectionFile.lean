import DocumentStore.Proofs.Json.Reader
import DocumentStore.Proofs.Json.RoundTrip
import DocumentStore.Proofs.Storage.Folder
import DocumentStore.Storage.CollectionFile

/-!
# What a collection file holds

A file holds a list of documents if it is there with the text that lists them,
or if the list is empty and nothing is there. Saving is what makes a file hold
something else. A save that fails may have made the directory, but no file in
it, so the file holds what it held.

Documents that are held are read back, with one exception. Writing has no limit
on depth and reading has one, so a file that holds documents too deep for it is
refused from then on, though the text in it is right.

Where a file is `Writable`, saving does not fail, and `written` is what it makes
of the directory.
-/

namespace DocumentStore

namespace CollectionFile

variable {file : CollectionFile} {folder : Folder} {docs : List Value}
  {world : World}

/-! ## Reading -/

theorem decode_encode (path : String) (pretty : Bool)
    (hdocs : ∀ doc ∈ docs, doc.Storable) :
    decode path (encode pretty docs) =
      if (Value.array docs).depth ≤ greatestDepth then .ok docs
      else .error .serialization := by
  have hwf : (Value.array docs).WellFormed :=
    Value.wellFormed_array_iff.mpr fun doc hdoc => (hdocs doc hdoc).wellFormed
  have hobjects : docs.findIdx? (fun doc => !doc.isObject) = none := by
    rw [List.findIdx?_eq_none_iff]
    intro doc hdoc
    rw [(hdocs doc hdoc).isObject]
    rfl
  rw [decode, encode, String.toList_ofList, Json.read?_chars pretty hwf]
  split
  · next hdeep =>
      split at hdeep
      · cases hdeep
      · next hdepth => rw [if_neg hdepth]
  · next found hread =>
      split at hread
      · next hdepth =>
          cases hread
          rw [hobjects, if_pos hdepth]
      · cases hread
  · next other hother hread =>
      split at hread
      · cases hread
        exact absurd rfl (hother docs)
      · cases hread

/-- The limit of a file, in terms of its documents. -/
theorem depth_le_iff : (Value.array docs).depth ≤ greatestDepth ↔
    ∀ doc ∈ docs, doc.depth < greatestDepth := by
  rw [Value.depth]
  exact Nat.succ_le_succ_iff.trans (Value.depthOfItems_le_iff.trans
    (forall₂_congr fun doc hdoc => Nat.lt_succ_iff.symm))

/-- The file holds the documents. -/
def Holds (file : CollectionFile) (folder : Folder)
    (docs : List Value) : Prop :=
  folder.find file.name = .ok (some (.text (encode file.pretty docs))) ∨
    (docs = [] ∧ ∀ entry, folder.find file.name ≠ .ok (some entry))

/-- The directory can be asked for the file. -/
def Reachable (file : CollectionFile) (folder : Folder) : Prop :=
  ∃ entry, folder.find file.name = .ok entry

theorem Holds.read_eq (h : file.Holds folder docs)
    (hdocs : ∀ doc ∈ docs, doc.Storable) (hfile : file.Reachable folder) :
    file.read folder =
      if (Value.array docs).depth ≤ greatestDepth then .ok docs
      else .error .serialization := by
  obtain ⟨entry, hentry⟩ := hfile
  rcases h with hfind | ⟨rfl, hnone⟩
  · rw [read, hfind]
    exact decode_encode file.path file.pretty hdocs
  · cases entry with
    | none =>
        rw [read, hentry]
        rfl
    | some entry => exact absurd hentry (hnone entry)

theorem reachable_of_read (h : file.read folder = .ok docs) :
    file.Reachable folder := by
  obtain ⟨entry, hentry, -⟩ := bind_eq_ok.mp h
  exact ⟨entry, hentry⟩

/-- Documents that are read are the documents that the file holds. -/
theorem Holds.eq_of_read {found : List Value} (h : file.Holds folder docs)
    (hdocs : ∀ doc ∈ docs, doc.Storable)
    (hread : file.read folder = .ok found) : found = docs := by
  rw [h.read_eq hdocs (reachable_of_read hread)] at hread
  split at hread
  · exact (Except.ok.inj hread).symm
  · cases hread

/-- Whatever was written to the file, and by whom, documents that are read of it
are well-formed objects within the limit. -/
theorem storable_of_read (h : file.read folder = .ok docs) :
    ∀ doc ∈ docs, doc.Storable ∧ doc.depth < greatestDepth := by
  obtain ⟨entry, -, h⟩ := bind_eq_ok.mp h
  split at h
  · cases h
    exact fun doc hdoc => nomatch hdoc
  · next content =>
      rw [decode] at h
      split at h
      · cases h
      · next found hread =>
          split at h
          · cases h
          · next hobjects =>
              cases h
              obtain ⟨-, hfits⟩ :=
                Value.fits_array_iff.mp (Json.fits_of_read? hread)
              rw [List.findIdx?_eq_none_iff] at hobjects
              intro doc hdoc
              have hdepth := (hfits doc hdoc).2
              have hobject : (!doc.isObject) = false := hobjects doc hdoc
              exact ⟨⟨(hfits doc hdoc).1, by simpa using hobject⟩, by omega⟩
      · cases h
  · cases h
  · cases h

theorem exec_load (file : CollectionFile) (world : World) :
    exec file.load world = (file.read world.folder, world) := rfl

/-- What follows the reading of a file sees the documents in it. -/
theorem exec_load_bind {file : CollectionFile} {world : World}
    {docs : List Value} {next : List Value → Store α}
    (hread : file.read world.folder = .ok docs) :
    exec (file.load >>= next) world = exec (next docs) world := by
  rw [exec_bind, exec_load, hread]

/-! ## Writing -/

theorem exec_save (file : CollectionFile) (docs : List Value) (world : World) :
    exec (file.save docs) world =
      match world.folder.write file.name (encode file.pretty docs) with
      | .ok folder => (.ok (), { world with folder })
      | .error e => (.error e, { world with folder := world.folder.made }) := by
  rw [save, exec_bind, exec_get]
  dsimp only
  rw [exec_bind, exec_set]
  dsimp only
  rw [exec_bind, Store.ofResult, exec_mk]
  cases world.folder.write file.name (encode file.pretty docs) with
  | ok folder => rfl
  | error e => rfl

theorem exec_remove (file : CollectionFile) (world : World) :
    exec file.remove world =
      match world.folder.remove file.name with
      | .ok (wasThere, folder) => (.ok wasThere, { world with folder })
      | .error e => (.error e, world) := by
  rw [remove, exec_bind, exec_get]
  dsimp only
  rw [exec_bind, Store.ofResult, exec_mk]
  cases world.folder.remove file.name with
  | ok found => rfl
  | error e => rfl

/-- Saving makes the file hold the documents and leaves the supply of
identifiers alone. If it fails the file holds what it held. -/
theorem save_cases (file : CollectionFile) (docs : List Value) (world : World) :
    (∃ folder, exec (file.save docs) world = (.ok (), { world with folder }) ∧
        folder.find file.name = .ok (some (.text (encode file.pretty docs)))) ∨
      ∃ e, exec (file.save docs) world =
        (.error e, { world with folder := world.folder.made }) ∧
        ∀ before, file.Holds world.folder before →
          file.Holds world.folder.made before := by
  rw [exec_save]
  cases hwrite : world.folder.write file.name (encode file.pretty docs) with
  | ok folder => exact .inl ⟨folder, rfl, Folder.find_write hwrite⟩
  | error e =>
      refine .inr ⟨e, rfl, ?_⟩
      intro before hbefore
      rcases hbefore with hfind | ⟨rfl, hnone⟩
      · exact .inl (Folder.find_made hfind)
      · exact .inr ⟨rfl, Folder.find_made_ne hnone⟩

/-- Saving fails only at the file. -/
theorem io_of_save {file : CollectionFile} {e : Error}
    (h : (exec (file.save docs) world).1 = .error e) : e = .io := by
  rw [exec_save] at h
  cases hwrite : world.folder.write file.name (encode file.pretty docs) with
  | ok folder =>
      rw [hwrite] at h
      cases h
  | error fault =>
      rw [hwrite] at h
      cases h
      exact Folder.io_of_write hwrite

/-! ## Files that can be written -/

/-- The file can be written: once the directory is there, no directory is in its
place and its name is not too long. -/
def Writable (file : CollectionFile) (folder : Folder) : Prop :=
  ∃ entry, folder.made.find file.name = .ok entry ∧ entry ≠ some .directory

/-- The directory with the documents written to the file. -/
def written (file : CollectionFile) (folder : Folder)
    (docs : List Value) : Folder :=
  some (Fields.insert file.name (.text (encode file.pretty docs))
    (folder.getD []))

theorem write_of_writable (h : file.Writable folder) (docs : List Value) :
    folder.write file.name (encode file.pretty docs) =
      .ok (file.written folder docs) := by
  obtain ⟨entry, hfind, hentry⟩ := h
  rw [Folder.write, hfind]
  cases entry with
  | none => rfl
  | some before =>
      cases before with
      | directory => exact absurd rfl hentry
      | text _ => rfl
      | binary => rfl

/-- What follows a save that cannot fail sees the documents written. -/
theorem exec_save_bind {file : CollectionFile} {folder : Folder}
    (h : file.Writable folder) (docs : List Value) (ids : IdSupply)
    (next : Unit → Store α) :
    exec (file.save docs >>= next) ⟨folder, ids⟩ =
      exec (next ()) ⟨file.written folder docs, ids⟩ := by
  rw [exec_bind, exec_save, write_of_writable h]

/-- A file that is read can be written, unless the directory is still to be made
and the name turns out to be too long then. -/
theorem writable_of_read (h : file.read folder = .ok docs)
    (hname : folder ≠ none ∨ file.name.utf8ByteSize ≤ Folder.greatestName) :
    file.Writable folder := by
  obtain ⟨entry, hfind, h⟩ := bind_eq_ok.mp h
  cases folder with
  | none =>
      have hlength : ¬ Folder.greatestName < file.name.utf8ByteSize :=
        Nat.not_lt.mpr (hname.resolve_left fun hne => hne rfl)
      exact ⟨none, if_neg hlength, nofun⟩
  | some entries =>
      refine ⟨entry, hfind, ?_⟩
      rintro rfl
      cases h

theorem find_written (h : file.Writable folder) (docs : List Value) :
    (file.written folder docs).find file.name =
      .ok (some (.text (encode file.pretty docs))) :=
  Folder.find_write (write_of_writable h docs)

theorem writable_written (h : file.Writable folder) (docs : List Value) :
    file.Writable (file.written folder docs) :=
  ⟨_, find_written h docs, nofun⟩

theorem read_written_eq (h : file.Writable folder)
    (hdocs : ∀ doc ∈ docs, doc.Storable) :
    file.read (file.written folder docs) =
      if (Value.array docs).depth ≤ greatestDepth then .ok docs
      else .error .serialization := by
  rw [read, find_written h]
  exact decode_encode file.path file.pretty hdocs

theorem read_written (h : file.Writable folder)
    (hdocs : ∀ doc ∈ docs, doc.Storable)
    (hdepth : ∀ doc ∈ docs, doc.depth < greatestDepth) :
    file.read (file.written folder docs) = .ok docs :=
  (read_written_eq h hdocs).trans (if_pos (depth_le_iff.mpr hdepth))

/-- The file lists the documents: its text is the one that is written for them,
or they are what is read of it. -/
def Lists (file : CollectionFile) (folder : Folder)
    (docs : List Value) : Prop :=
  folder.find file.name = .ok (some (.text (encode file.pretty docs))) ∨
    file.read folder = .ok docs

theorem lists_written (h : file.Writable folder) (docs : List Value) :
    file.Lists (file.written folder docs) docs :=
  .inl (find_written h docs)

/-! ## Saving and loading -/

theorem writable_of_write {content : String} {after : Folder}
    (h : folder.write file.name content = .ok after) :
    file.Writable folder := by
  obtain ⟨entry, hfind, h⟩ := bind_eq_ok.mp h
  refine ⟨entry, hfind, ?_⟩
  rintro rfl
  cases h

/-- Saving succeeds for the files that can be written, and only for those. -/
theorem save_ok_iff :
    (exec (file.save docs) world).1 = .ok () ↔ file.Writable world.folder := by
  rw [exec_save]
  constructor
  · intro h
    cases hwrite : world.folder.write file.name (encode file.pretty docs) with
    | ok after => exact writable_of_write hwrite
    | error e =>
        rw [hwrite] at h
        cases h
  · intro h
    rw [write_of_writable h]

/-- What was saved is what is loaded: the same documents in the same order, each
with its fields in their order, its numbers of the same kind and its strings, in
either layout. They are saved if the file can be written, and can be loaded if
the array of them is not too deep. -/
theorem load_after_save (hdocs : ∀ doc ∈ docs, doc.Storable)
    (hdepth : (Value.array docs).depth ≤ greatestDepth) :
    ((exec (file.save docs) world).1 = .ok () ↔ file.Writable world.folder) ∧
      ∀ after, exec (file.save docs) world = (.ok (), after) →
        exec file.load after = (.ok docs, after) := by
  refine ⟨save_ok_iff, ?_⟩
  intro after hsave
  have hwritable : file.Writable world.folder :=
    save_ok_iff.mp (congrArg Prod.fst hsave)
  rw [exec_save, write_of_writable hwritable] at hsave
  cases hsave
  rw [exec_load, read_written hwritable hdocs (depth_le_iff.mp hdepth)]

/-- Values of which a careless layout or reader would make others: an integer
above the signed range, a negative zero, empty containers and characters that
have to be escaped. -/
def fragile : List Value :=
  [.object [("n", .number (.int 0xffffffffffffffff)),
    ("b", .number (.double (.zero true))),
    ("a", .array [.array [], .object [], .string "\x00\"\\\né"])], .object []]

theorem load_after_save_fragile :
    (∀ doc ∈ fragile, doc.Storable) ∧ (Value.array fragile).depth ≤
      greatestDepth ∧
      ((exec (save ⟨"f.json", "f.json", true⟩ fragile)
          ⟨none, fun _ => "", 0⟩).1 = .ok () ↔
        Writable ⟨"f.json", "f.json", true⟩ none) ∧
      ∀ after, exec (save ⟨"f.json", "f.json", true⟩ fragile)
        ⟨none, fun _ => "", 0⟩ = (.ok (), after) →
        exec (load ⟨"f.json", "f.json", true⟩) after =
          (.ok fragile, after) := by
  have hdocs : ∀ doc ∈ fragile, doc.Storable := by
    intro doc hdoc
    simp only [fragile, List.mem_cons, List.not_mem_nil, or_false] at hdoc
    rcases hdoc with rfl | rfl
    · refine ⟨?_, rfl⟩
      simp [Value.WellFormed, Value.FieldsWellFormed, Value.ItemsWellFormed,
        Fields.keys]
    · exact ⟨Value.wellFormed_emptyObject, rfl⟩
  have hdepth : (Value.array fragile).depth ≤ greatestDepth := by decide
  exact ⟨hdocs, hdepth, load_after_save hdocs hdepth⟩

end CollectionFile

end DocumentStore
