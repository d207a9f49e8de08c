import DocumentStore.Proofs.Database.Confined
import DocumentStore.Proofs.Database.Name

/-!
# Collections side by side

A session with a database asks for operations on the collections of any names,
takes their files away, and changes documents at hand and writes them back.

What it does to the directory is confined to the files of accepted names. So a
directory that was new stays `Tidy`: it holds such files and nothing else, each
once. `Orderly.step` is the step and `Orderly.run` the run. In a tidy directory
the names that are listed are those whose file is there, because a stem leads
back to its name.
-/

namespace DocumentStore

open Relation

/-- The file name of a collection whose name is accepted. -/
def IsCollectionFile (fileName : String) : Prop :=
  ∃ name, Database.isBadName name = false ∧ fileName = Config.fileName name

/-! ## Directories of collections -/

/-- A directory that is there and holds files of collections, each once, and
nothing else. -/
structure Folder.Tidy (folder : Folder) : Prop where
  there : folder.isSome = true
  nodup : (Fields.keys (folder.getD [])).Nodup
  files : ∀ entry ∈ folder.getD [], IsCollectionFile entry.1 ∧
    entry.1.utf8ByteSize ≤ Folder.greatestName ∧ entry.2 ≠ .directory

namespace Folder

variable {folder after : Folder} {name : String}

theorem tidy_made (h : folder.getD [] = []) : folder.made.Tidy := by
  refine ⟨rfl, ?_, ?_⟩
  · simp [made, h, Fields.keys]
  · simp [made, h]

namespace Tidy

theorem touch (h : folder.Tidy)
    (hstep : Touches IsCollectionFile folder after) : after.Tidy := by
  cases hstep with
  | make => exact ⟨rfl, h.nodup, h.files⟩
  | @write name content _ hname hwrite =>
      obtain ⟨hlength, rfl⟩ := of_write hwrite
      refine ⟨rfl, Fields.nodup_keys_insert _ _ h.nodup, ?_⟩
      intro entry hentry
      rcases Fields.mem_insert hentry with rfl | hentry
      · exact ⟨hname, hlength, nofun⟩
      · exact h.files entry hentry
  | @remove name _ _ hname hremove =>
      rcases of_remove hremove with rfl | rfl
      · exact h
      · obtain ⟨entries, rfl⟩ := Option.isSome_iff_exists.mp h.there
        have hsub := Fields.erase_sublist name entries
        exact ⟨rfl, Fields.nodup_keys_of_sublist hsub h.nodup,
          fun entry hentry => h.files entry (hsub.subset hentry)⟩

theorem touches (h : folder.Tidy)
    (hrun : ReflTransGen (Touches IsCollectionFile) folder after) :
    after.Tidy := by
  induction hrun with
  | refl => exact h
  | tail _ hstep ih => exact ih.touch hstep

/-- Everything in it is a file. -/
theorem files_eq (h : folder.Tidy) :
    folder.files = .ok (Fields.keys (folder.getD [])) := by
  obtain ⟨entries, rfl⟩ := Option.isSome_iff_exists.mp h.there
  have hall : (entries.filter fun entry => entry.2 != .directory) =
      entries := by
    rw [List.filter_eq_self]
    intro entry hentry
    simpa using (h.files entry hentry).2.2
  show Except.ok
      ((entries.filter fun entry => entry.2 != .directory).map (·.1)) = _
  rw [hall]
  rfl

theorem hasFile_iff (h : folder.Tidy) :
    folder.hasFile name = true ↔ name ∈ Fields.keys (folder.getD []) := by
  have hfind : folder.hasFile name = true ↔
      ∃ entry, folder.find name = .ok (some entry) ∧ entry ≠ .directory := by
    rw [hasFile]
    cases folder.find name with
    | error e => simp
    | ok found => rcases found with _ | (_ | _ | _) <;> simp
  rw [hfind]
  constructor
  · rintro ⟨entry, hentry, -⟩
    rw [find_eq] at hentry
    split at hentry
    · cases hentry
    · by_contra hmem
      rw [stored?, Fields.get?_eq_none_iff.mpr hmem] at hentry
      cases hentry
  · intro hmem
    obtain ⟨⟨key, entry⟩, hentry, rfl⟩ := List.mem_map.mp hmem
    obtain ⟨-, hlength, hdirectory⟩ := h.files _ hentry
    refine ⟨entry, ?_, hdirectory⟩
    rw [find_of_short folder hlength, stored?,
      (Fields.get?_eq_some_iff h.nodup).mpr hentry]

end Tidy

end Folder

/-! ## Sessions with a database -/

namespace Database

/-- What can be asked of a database and of the documents at hand. -/
inductive Call where
  | ask (name : String) (operation : Operation)
  | drop (name : String)
  | set (handle : Nat) (path : String) (value : Value)

/-- The session after an operation. The documents that it gives are at hand
then. -/
def after (session : Session) (m : Store (List Document)) : Session :=
  match exec m session.world with
  | (.ok given, world) => ⟨world, session.handles ++ given⟩
  | (.error _, world) => { session with world }

/-- The session after a call, whatever its outcome. -/
def step (database : Database) (now : Instant)
    (session : Session) : Call → Session
  | .ask name operation => after session do
      let collection ← Store.ofResult (database.collection name)
      operation.run collection now session.handles
  | .drop name => after session (database.drop name >>= fun _ => pure [])
  | .set handle path value =>
      { session with
        handles := session.handles.modify handle fun doc =>
          (doc.set path value).1 }

/-- The session after calls, each at its instant. -/
def run (database : Database) : List (Instant × Call) → Session → Session
  | [], session => session
  | (now, call) :: rest, session =>
      run database rest (database.step now session call)

/-- A session at its start, with the directory made if it was not there. -/
def session (config : Config) (world : World) : Session :=
  .start (exec (openAt config) world).2

variable {database : Database} {s : Session} {now : Instant} {config : Config}
  {world : World}

/-- The directory holds files of collections, and the documents at hand come
from such. -/
structure Orderly (session : Session) : Prop where
  folder : session.world.folder.Tidy
  handles : ∀ doc ∈ session.handles, IsCollectionFile doc.file.name

theorem orderly_session (config : Config) (h : world.folder.getD [] = []) :
    Orderly (session config world) :=
  ⟨Folder.tidy_made h, fun _ hdoc => nomatch hdoc⟩

theorem collection_eq_ok {name : String} {collection : Collection}
    (h : database.collection name = .ok collection) :
    isBadName name = false ∧ collection = .ofConfig database.config name := by
  rw [Database.collection] at h
  split at h
  · cases h
  · next hname => exact ⟨by simpa using hname, (Except.ok.inj h).symm⟩

theorem isCollectionFile_of_collection {name : String} {collection : Collection}
    (h : database.collection name = .ok collection) :
    IsCollectionFile collection.file.name := by
  obtain ⟨hname, rfl⟩ := collection_eq_ok h
  exact ⟨name, hname, rfl⟩

namespace Orderly

theorem after (h : Orderly s) {m : Store (List Document)}
    (hm : Confined IsCollectionFile m fun given => ∀ doc ∈ given,
      IsCollectionFile doc.file.name) :
    Orderly (after s m) := by
  obtain ⟨htouches, hgiven⟩ := hm s.world
  have hfolder := h.folder.touches htouches
  rw [Database.after]
  cases hrun : exec m s.world with
  | mk outcome world =>
      rw [hrun] at hfolder hgiven
      cases outcome with
      | error e => exact ⟨hfolder, h.handles⟩
      | ok given =>
          refine ⟨hfolder, ?_⟩
          intro doc hdoc
          rcases List.mem_append.mp hdoc with hdoc | hdoc
          · exact h.handles doc hdoc
          · exact hgiven given rfl doc hdoc

theorem step (h : Orderly s) (call : Call) :
    Orderly (database.step now s call) := by
  cases call with
  | ask name operation =>
      refine h.after (.bind (.ofResult fun collection =>
          isCollectionFile_of_collection)
        fun collection hfile => ?_)
      exact (Collection.confined_operation hfile h.handles operation).imp
        fun given hgiven doc hdoc =>
        hgiven doc hdoc ▸ hfile
  | drop name =>
      have hdrop : Confined IsCollectionFile (database.drop name) fun _ =>
          True :=
        .bind (.ofResult fun collection => isCollectionFile_of_collection)
          fun collection hfile => .remove hfile
      exact h.after (.nothing hdrop (by simp))
  | set handle path value =>
      refine ⟨h.folder, ?_⟩
      intro doc hdoc
      rw [Database.step] at hdoc
      obtain ⟨place, hplace⟩ := List.mem_iff_getElem?.mp hdoc
      rw [List.getElem?_modify] at hplace
      obtain ⟨old, hold, hnew⟩ := Option.map_eq_some_iff.mp hplace
      have hfile : doc.file = old.file := by
        subst hnew
        split
        · exact Document.file_set old path value
        · rfl
      exact hfile ▸ h.handles old (List.mem_of_getElem? hold)

theorem run (h : Orderly s) (calls : List (Instant × Call)) :
    Orderly (database.run calls s) := by
  induction calls generalizing s with
  | nil => exact h
  | cons call rest ih => exact ih (h.step call.2)

end Orderly

/-! ## Listing -/

theorem exec_list {files : List String} (h : world.folder.files = .ok files) :
    exec database.list world =
      (.ok (files.filterMap stem?).mergeSort, world) := by
  rw [list, exec_bind, exec_get]
  dsimp only
  rw [exec_bind, Store.ofResult, exec_mk, h]
  rfl

/-- Files of different names have different stems. -/
theorem nodup_stems {files : List String} (h : files.Nodup) :
    (files.filterMap stem?).Nodup := by
  refine List.Pairwise.filterMap stem? ?_ h
  rintro a b hab stem ha _ hb rfl
  exact hab ((fileName_of_stem? ha).trans (fileName_of_stem? hb).symm)

theorem pairwise_lt_mergeSort {names : List String} (h : names.Nodup) :
    names.mergeSort.Pairwise (· < ·) := by
  have hsorted : names.mergeSort.Pairwise fun a b => decide (a ≤ b) = true := by
    refine List.pairwise_mergeSort ?_ ?_ names
    · intro a b c hab hbc
      exact decide_eq_true
        (String.le_trans (of_decide_eq_true hab) (of_decide_eq_true hbc))
    · intro a b
      simpa using String.le_total a b
  have hdistinct : names.mergeSort.Pairwise (· ≠ ·) :=
    (List.mergeSort_perm names _).nodup_iff.mpr h
  refine (hsorted.and hdistinct).imp ?_
  rintro a b ⟨hle, hne⟩
  exact String.not_le.mp fun hge =>
    hne (String.le_antisymm (of_decide_eq_true hle) hge)

theorem mem_stems_iff {folder : Folder} (h : folder.Tidy) {name : String} :
    name ∈ (Fields.keys (folder.getD [])).filterMap stem? ↔
      isBadName name = false ∧
        folder.hasFile (Config.fileName name) = true := by
  rw [h.hasFile_iff, List.mem_filterMap]
  constructor
  · rintro ⟨file, hfile, hstem⟩
    have heq : file = Config.fileName name := fileName_of_stem? hstem
    obtain ⟨entry, hentry, rfl⟩ := List.mem_map.mp hfile
    obtain ⟨⟨accepted, haccepted, hname⟩, -⟩ := h.files entry hentry
    rw [fileName_inj.mp (hname.symm.trans heq)] at haccepted
    exact ⟨haccepted, heq ▸ hfile⟩
  · rintro ⟨haccepted, hmem⟩
    exact ⟨_, hmem, stem?_fileName (ne_empty_of_accepted haccepted)⟩

theorem list_of_tidy (database : Database) (h : world.folder.Tidy) :
    ∃ names, exec database.list world = (.ok names, world) ∧
      names.Pairwise (· < ·) ∧
      ∀ name, name ∈ names ↔
        isBadName name = false ∧
          world.folder.hasFile (Config.fileName name) = true := by
  refine ⟨_, exec_list h.files_eq,
    pairwise_lt_mergeSort (nodup_stems h.nodup), ?_⟩
  intro name
  rw [List.mem_mergeSort]
  exact mem_stems_iff h

/-! ## Isolation -/

theorem untouched_by_operation {a b : String} (hne : a ≠ b)
    {handles : List Document}
    (hhandles : ∀ doc ∈ handles, doc.file = .ofConfig config a) (now : Instant)
    (operation : Operation) (world : World) :
    (CollectionFile.ofConfig config b).Untouched world.folder
      (exec (operation.run (.ofConfig config a) now handles) world).2.folder := by
  have hconfined : Confined (· = Config.fileName a)
      (operation.run (.ofConfig config a) now handles)
      fun given => ∀ doc ∈ given, doc.file = .ofConfig config a := by
    refine Collection.confined_operation ?_ ?_ operation
    · rfl
    · exact fun doc hdoc => congrArg CollectionFile.name (hhandles doc hdoc)
  exact CollectionFile.untouched_of_touches (hconfined world).1
    fun h => hne (fileName_inj.mp h).symm

/-- The files of different names are different entries of the data directory,
and an operation on one collection leaves the others as they are. The file of an
accepted name has the extension of collections, and its stem is the name. So
after any calls on a directory that was new, the names that are listed are those
whose file is there, in order and each once. -/
theorem collections_apart (config : Config) :
    (∀ name, isBadName name = false →
      LiesIn config.dataDir (config.collectionPath name)
        (Config.fileName name) ∧
        HasExtension (Config.fileName name) name "json" ∧
        stem? (Config.fileName name) = some name) ∧
    (∀ a b, isBadName a = false → isBadName b = false → a ≠ b →
      pathSteps (config.collectionPath a) ≠
        pathSteps (config.collectionPath b) ∧
      ∀ (handles : List Document) (now : Instant) (operation : Operation)
        (world : World),
        (∀ doc ∈ handles, doc.file = .ofConfig config a) →
          (CollectionFile.ofConfig config b).Untouched world.folder
            (exec (operation.run (.ofConfig config a) now handles)
              world).2.folder) ∧
    ∀ (world : World) (calls : List (Instant × Call)),
      world.folder.getD [] = [] →
      let left := (run ⟨config⟩ calls (session config world)).world
      ∃ names, exec (list ⟨config⟩) left = (.ok names, left) ∧
        names.Pairwise (· < ·) ∧
        ∀ name, name ∈ names ↔
          isBadName name = false ∧
            left.folder.hasFile (Config.fileName name) = true := by
  refine ⟨?_, ?_, ?_⟩
  · intro name hname
    exact ⟨liesIn_collectionPath config hname,
      hasExtension_iff.mpr ⟨ne_empty_of_accepted hname, rfl⟩,
      stem?_fileName (ne_empty_of_accepted hname)⟩
  · intro a b ha hb hne
    refine ⟨?_, ?_⟩
    · exact (liesIn_collectionPath config ha).steps_ne
        (liesIn_collectionPath config hb)
        fun h => hne (fileName_inj.mp h)
    · intro handles now operation world hhandles
      exact untouched_by_operation hne hhandles now operation world
  · intro world calls hnew
    exact list_of_tidy _ ((orderly_session config hnew).run calls).folder

/-- Calls for names of which one is another with the extension, and for one that
is not accepted. -/
def shelfCalls : List (Instant × Call) :=
  [(Session.epoch, .ask "b" (.request (.insertOne (bare "1")))),
    (Session.epoch, .ask "a.json" (.request (.insertOne (bare "2")))),
    (Session.epoch, .ask "a" (.request (.create (bare "3")))),
    (Session.epoch, .ask ".." (.request (.insertOne (bare "4")))),
    (Session.epoch, .drop "b")]

def shelf : World := (run ⟨{}⟩ shelfCalls (session {} Session.nowhere)).world

/-- Dropping one collection leaves what is read of the other, and the listing
has those two whose file is there. -/
theorem collections_apart_shelf :
    isBadName "a" = false ∧ isBadName "a.json" = false ∧
      Session.nowhere.folder.getD [] = [] ∧
      LiesIn "./data" "./data/a.json.json" "a.json.json" ∧
      stem? "a.json.json" = some "a.json" ∧
      (CollectionFile.ofConfig {} "a.json").read
        (exec (Operation.run (.ofConfig {} "a") Session.epoch [] .drop)
            shelf).2.folder =
          .ok [bare "2"] ∧
      ∃ names, exec (list ⟨{}⟩) shelf = (.ok names, shelf) ∧
        names.Pairwise (· < ·) ∧
        "a" ∈ names ∧ "a.json" ∈ names ∧ "b" ∉ names := by
  have ha : isBadName "a" = false := by decide
  have hjson : isBadName "a.json" = false := by decide
  have hread : (CollectionFile.ofConfig {} "a.json").read shelf.folder =
      .ok [bare "2"] := by
    decide +kernel
  have hfiles : shelf.folder.hasFile (Config.fileName "a") = true ∧
      shelf.folder.hasFile (Config.fileName "a.json") = true ∧
      shelf.folder.hasFile (Config.fileName "b") = false := by
    decide +kernel
  obtain ⟨hnames, hpairs, hlists⟩ := collections_apart {}
  obtain ⟨hlies, -, hstem⟩ := hnames "a.json" hjson
  obtain ⟨-, hframe⟩ := hpairs "a" "a.json" ha hjson (by decide)
  have hsame := (hframe [] Session.epoch .drop shelf nofun).read
    (.inr (by decide))
  obtain ⟨names, hlist, hsorted, hmem⟩ := hlists Session.nowhere shelfCalls rfl
  refine ⟨ha, hjson, rfl, hlies, hstem, hsame.trans hread, names,
    hlist, hsorted,
    ?_, ?_, ?_⟩
  · exact (hmem "a").mpr ⟨ha, hfiles.1⟩
  · exact (hmem "a.json").mpr ⟨hjson, hfiles.2.1⟩
  · intro hb
    have hfile : shelf.folder.hasFile (Config.fileName "b") = true :=
      ((hmem "b").mp hb).2
    rw [hfiles.2.2] at hfile
    cases hfile

end Database

end DocumentStore
