import DocumentStore.Database

/-!
# Names of collections and of files

The name of a collection is pasted into a path, and it is read off the directory
again by taking an extension away. Names may hold dots wherever they like, also
at their ends, and may themselves end in the extension.

A path is taken for the steps that it walks. The path of a collection takes the
steps of the data directory and then one more, which is an ordinary entry; so
different names are different entries of one directory. And the stem of a file
is the name that its file comes from, whatever that name is.
-/

namespace DocumentStore

/-! ## Paths -/

/-- What a path walks through, one after the other. Nothing between two slashes
is no step, and neither is a single dot. -/
def pathSteps (path : String) : List (List Char) :=
  (path.toList.splitOn '/').filter fun part => part ≠ [] ∧ part ≠ ['.']

def isAbsolute (path : String) : Bool := path.toList.head? = some '/'

/-- A name of one entry in a directory, and not of the directory or what is
above it. -/
structure EntryName (name : String) : Prop where
  nonempty : name ≠ ""
  notHere : name ≠ "."
  notAbove : name ≠ ".."
  noSlash : '/' ∉ name.toList
  noNull : '\x00' ∉ name.toList

/-- A path leads directly into a directory, to the entry of this name. -/
structure LiesIn (directory path entry : String) : Prop where
  entryName : EntryName entry
  steps : pathSteps path = pathSteps directory ++ [entry.toList]
  absolute : isAbsolute path = isAbsolute directory

variable {directory path other first second name file stem : String}
  {a b : String}

namespace EntryName

theorem splitOn_eq (h : EntryName name) :
    name.toList.splitOn '/' = [name.toList] := by
  refine List.splitOnP_eq_singleton fun c hc => ?_
  rw [beq_eq_false_iff_ne]
  rintro rfl
  exact h.noSlash hc

theorem pathSteps_eq (h : EntryName name) : pathSteps name = [name.toList] := by
  have hdot : name.toList ≠ ['.'] :=
    fun hdot => h.notHere (String.toList_inj.mp hdot)
  rw [pathSteps, h.splitOn_eq]
  simp [hdot, h.nonempty]

theorem not_absolute (h : EntryName name) : name.toList.head? ≠ some '/' :=
  fun hhead => h.noSlash (List.mem_of_mem_head? hhead)

end EntryName

theorem pathSteps_slash (first second : String) :
    pathSteps (first ++ "/" ++ second) =
      pathSteps first ++ pathSteps second := by
  have hsplit : (first.toList ++ '/' :: second.toList).splitOn '/' =
      first.toList.splitOn '/' ++ second.toList.splitOn '/' :=
    List.splitOnP_append_cons _ _ (beq_self_eq_true '/')
  have hslash : "/".toList = ['/'] := rfl
  rw [pathSteps, String.toList_append, String.toList_append, hslash,
    List.append_assoc, List.singleton_append, hsplit, List.filter_append]
  rfl

theorem pathSteps_empty : pathSteps "" = [] := by decide

/-- A path that is empty or ends in a slash can be written on. -/
theorem pathSteps_append (h : first = "" ∨ first.toList.getLast? = some '/')
    (second : String) :
    pathSteps (first ++ second) = pathSteps first ++ pathSteps second := by
  rcases h with rfl | hlast
  · rw [String.empty_append, pathSteps_empty, List.nil_append]
  · obtain ⟨front, hfront⟩ := List.getLast?_eq_some_iff.mp hlast
    have hfirst : first = String.ofList front ++ "/" ++ "" := by
      rw [← String.toList_inj, hfront]
      simp
    have hsteps : pathSteps first = pathSteps (String.ofList front) := by
      rw [hfirst, pathSteps_slash, pathSteps_empty, List.append_nil]
    rw [hsteps, ← pathSteps_slash]
    simp [hfirst]

/-- What is written after a path that is not empty does not make it absolute. -/
theorem isAbsolute_append (h : first ≠ "") (second : String) :
    isAbsolute (first ++ second) = isAbsolute first := by
  rw [isAbsolute, isAbsolute, String.toList_append]
  cases hfirst : first.toList with
  | nil => exact absurd (String.toList_eq_nil_iff.mp hfirst) h
  | cons c rest => rfl

/-- To join an entry to a path is to take one more step. -/
theorem liesIn_joinPaths (first : String) (h : EntryName second) :
    LiesIn first (joinPaths first second) second := by
  rw [joinPaths, if_neg h.not_absolute]
  split
  · next hends =>
      rw [String.isEmpty_iff] at hends
      refine ⟨h, ?_, ?_⟩
      · rw [pathSteps_append hends, h.pathSteps_eq]
      · by_cases hempty : first = ""
        · subst hempty
          rw [String.empty_append, isAbsolute, decide_eq_false h.not_absolute]
          rfl
        · exact isAbsolute_append hempty second
  · next hends =>
      rw [String.isEmpty_iff, not_or] at hends
      refine ⟨h, ?_, ?_⟩
      · rw [pathSteps_slash, h.pathSteps_eq]
      · rw [String.append_assoc]
        exact isAbsolute_append hends.1 _

/-- Entries of different names are reached in different ways. -/
theorem LiesIn.steps_ne (ha : LiesIn directory path a)
    (hb : LiesIn directory other b) (h : a ≠ b) :
    pathSteps path ≠ pathSteps other := by
  rw [ha.steps, hb.steps]
  intro heq
  have hlast : [a.toList] = [b.toList] := List.append_cancel_left heq
  exact h (String.toList_inj.mp (List.singleton_inj.mp hlast))

/-! ## Extensions -/

/-- A file name is a stem, which is not empty, a dot, and an extension in which
there is no further dot. -/
structure HasExtension (file stem extension : String) : Prop where
  eq : file = stem ++ "." ++ extension
  nonempty : stem ≠ ""
  last : '.' ∉ extension.toList

namespace Database

theorem hasExtension_iff :
    HasExtension file stem "json" ↔
      stem ≠ "" ∧ file = Config.fileName stem := by
  have hname : stem ++ "." ++ "json" = Config.fileName stem :=
    String.append_assoc
  refine ⟨fun h => ⟨h.nonempty, h.eq.trans hname⟩, ?_⟩
  rintro ⟨hne, rfl⟩
  exact ⟨hname.symm, hne, by decide⟩

theorem toList_fileName (name : String) :
    (Config.fileName name).toList = name.toList ++ extension :=
  String.toList_append

/-- A file is taken for a collection if it has the extension, and then by its
stem. -/
theorem stem?_eq_some_iff :
    stem? file = some stem ↔ HasExtension file stem "json" := by
  rw [hasExtension_iff, stem?]
  constructor
  · intro h
    split at h
    · next hsplit =>
        cases h
        refine ⟨fun hempty => hsplit.1 (by simpa using hempty), ?_⟩
        rw [← String.toList_inj, toList_fileName, String.toList_ofList]
        exact hsplit.2
    · cases h
  · rintro ⟨hne, rfl⟩
    have htake : (Config.fileName stem).toList.take
        ((Config.fileName stem).toList.length - extension.length) =
          stem.toList := by
      rw [toList_fileName, List.length_append, Nat.add_sub_cancel,
        List.take_left]
    rw [htake, if_pos ⟨fun hnil => hne (String.toList_eq_nil_iff.mp hnil),
        toList_fileName stem⟩,
      String.ofList_toList]

theorem stem?_fileName (h : name ≠ "") :
    stem? (Config.fileName name) = some name :=
  stem?_eq_some_iff.mpr (hasExtension_iff.mpr ⟨h, rfl⟩)

theorem fileName_of_stem? (h : stem? file = some stem) :
    file = Config.fileName stem :=
  (hasExtension_iff.mp (stem?_eq_some_iff.mp h)).2

theorem fileName_inj : Config.fileName a = Config.fileName b ↔ a = b :=
  ⟨fun h => (String.append_left_inj ".json").mp h, congrArg _⟩

/-! ## Accepted names -/

theorem isBadName_eq_false_iff : isBadName name = false ↔
    name ≠ "" ∧ name ≠ "." ∧ name ≠ ".." ∧
      ∀ c ∈ name.toList, c ≠ '/' ∧ c ≠ '\\' ∧ c ≠ '\x00' := by
  simp [isBadName, and_assoc]

theorem ne_empty_of_accepted (h : isBadName name = false) : name ≠ "" :=
  (isBadName_eq_false_iff.mp h).1

/-- The file of an accepted name is an entry of its own. -/
theorem entryName_fileName (h : isBadName name = false) :
    EntryName (Config.fileName name) := by
  obtain ⟨-, -, -, hchars⟩ := isBadName_eq_false_iff.mp h
  have hlength : 5 ≤ (Config.fileName name).toList.length := by
    rw [toList_fileName, List.length_append]
    exact Nat.le_add_left _ _
  have hne : ∀ short : String, short.toList.length < 5 →
      Config.fileName name ≠ short := by
    rintro short hshort rfl
    exact absurd hlength (Nat.not_le.mpr hshort)
  have hmem : ∀ c, c ∉ extension → (c ∈ name.toList → False) →
      c ∉ (Config.fileName name).toList := by
    intro c hextension hname hc
    rw [toList_fileName] at hc
    exact (List.mem_append.mp hc).elim hname hextension
  refine ⟨hne _ (by decide), hne _ (by decide), hne _ (by decide), ?_, ?_⟩
  · exact hmem _ (by decide) fun hc => (hchars _ hc).1 rfl
  · exact hmem _ (by decide) fun hc => (hchars _ hc).2.2 rfl

theorem liesIn_collectionPath (config : Config) (h : isBadName name = false) :
    LiesIn config.dataDir (config.collectionPath name) (Config.fileName name) :=
  liesIn_joinPaths config.dataDir (entryName_fileName h)

end Database

end DocumentStore
