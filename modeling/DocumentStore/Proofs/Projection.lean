import DocumentStore.Aggregation.Reshape
import DocumentStore.Proofs.Filter.Identifier
import DocumentStore.Proofs.Path.Build
import DocumentStore.Proofs.Path.Failure
import DocumentStore.Proofs.Run
import Mathlib.Data.List.Pairwise

/-!
# What projections take away and what they keep

A projection whose flags are all zero takes its paths out of the document, one
after the other. This never fails, and paths that diverge from all of them read
as before (`exclude_removes`). The identifier alone is no such projection for a
search: its flag does not count when the search decides whether to take away or
to build anew, so what is built is empty.

A projection whose flags are all one builds a document from what it lists, by
assignments at paths that diverge. What these make of an empty object is the
matter of `Path.Fit` and `Path.Padded`, and the rest is about the identifier: it
is there before the first assignment, so an assignment at it or in it finds what
it assigns and changes nothing (`SharesId`).

A search and a pipeline do all of this alike.
-/

namespace DocumentStore

open DocumentStore.Path (Assigned Writable Diverge Fit Padded steps under)

variable {projection : List (String × Value)} {paths : List Path} {path : Path}
  {doc v result x : Value}

namespace Projection

/-- A projection lists paths, at least one, with flags of one kind. -/
structure Lists (flag : Value → Bool) (projection : List (String × Value))
    (paths : List Path) : Prop where
  nonempty : projection ≠ []
  flags : ∀ entry ∈ projection, flag entry.2 = true
  paths : List.Forall₂ (fun entry path => Path.parse entry.1 = .ok path)
    projection paths

/-! ## Taking away -/

/-- A document without what several paths lead to. -/
def without (paths : List Path) (doc : Value) : Value :=
  paths.foldl (fun left path => (path.remove left).2) doc

theorem exclude_eq {excluded : Value → Bool}
    (h : ∀ entry ∈ projection, excluded entry.2 = true)
    (hpaths : List.Forall₂ (fun entry path => Path.parse entry.1 = .ok path)
      projection paths)
    (doc : Value) :
    exclude excluded projection doc = .ok (without paths doc) := by
  induction hpaths generalizing doc with
  | nil => rfl
  | @cons entry path rest paths hpath hpaths ih =>
      obtain ⟨hflag, hflags⟩ := List.forall_mem_cons.mp h
      rw [exclude, if_pos hflag, hpath]
      exact ih hflags _

theorem get_without {q : Path}
    (h : ∀ path ∈ paths, Diverge path.segments q.segments) (doc : Value) :
    q.get (without paths doc) = q.get doc := by
  induction paths generalizing doc with
  | nil => rfl
  | cons path rest ih =>
      obtain ⟨hpath, hrest⟩ := List.forall_mem_cons.mp h
      exact (ih hrest _).trans (Path.lookup_erase_of_diverge hpath doc)

theorem isExcluded_of_isZero (h : v.isZero = true) : isExcluded v = true := by
  cases v with
  | bool b => cases h
  | _ => exact h

theorem keep_eq_self
    (h : ∀ entry ∈ projection, entry.1 = idKey ∨ isExcluded entry.2 = true) :
    keep doc projection v = .ok v := by
  induction projection with
  | nil => rfl
  | cons entry rest ih =>
      obtain ⟨hentry, hrest⟩ := List.forall_mem_cons.mp h
      rw [keep, if_pos hentry]
      exact ih hrest

/-- A search takes paths away if it excludes something other than the
identifier. -/
theorem any_isExcluded_iff
    (h : ∀ entry ∈ projection, isExcluded entry.2 = true) :
    (projection.any fun (field, flag) => field != idKey && isExcluded flag) =
      true ↔
      ∃ entry ∈ projection, entry.1 ≠ idKey := by
  rw [List.any_eq_true]
  refine exists_congr fun entry => and_congr_right fun hentry => ?_
  simp [h entry hentry]

/-- A projection whose flags are all zero gives the document without its paths.
Only a search that excludes nothing but the identifier gives an empty document
instead. -/
theorem exclude_removes (h : Lists Value.isZero projection paths)
    (doc : Value) :
    Aggregation.project projection doc = .ok (without paths doc) ∧
      ((∃ entry ∈ projection, entry.1 ≠ idKey) →
        apply projection doc = .ok (without paths doc)) ∧
      ((∀ entry ∈ projection, entry.1 = idKey) →
        apply projection doc = .ok (.object [])) ∧
      ∀ q : Path, (∀ path ∈ paths, Diverge path.segments q.segments) →
        q.get (without paths doc) = q.get doc := by
  have hexcluded : ∀ entry ∈ projection, isExcluded entry.2 = true :=
    fun entry hentry => isExcluded_of_isZero (h.flags entry hentry)
  have hnonempty : projection.isEmpty = false := by simpa using h.nonempty
  have hsearch := any_isExcluded_iff hexcluded
  refine ⟨?_, ?_, ?_, fun q hq => get_without hq doc⟩
  · have hany : (projection.any fun (_, spec) => spec.isZero) = true := by
      obtain ⟨entry, hentry⟩ := List.exists_mem_of_ne_nil _ h.nonempty
      exact List.any_eq_true.mpr ⟨entry, hentry, h.flags entry hentry⟩
    rw [Aggregation.project, if_pos hany]
    exact exclude_eq h.flags h.paths doc
  · intro hother
    rw [apply, if_neg (by simp [hnonempty]), if_pos (hsearch.mpr hother)]
    exact exclude_eq hexcluded h.paths doc
  · intro hid
    have hnone : ¬ ∃ entry ∈ projection, entry.1 ≠ idKey :=
      fun ⟨entry, hentry, hne⟩ => hne (hid entry hentry)
    have hflag : (Fields.get? idKey projection).any isExcluded = true := by
      obtain ⟨⟨field, flag⟩, rest, rfl⟩ := List.exists_cons_of_ne_nil h.nonempty
      have hfield : field = idKey := hid _ List.mem_cons_self
      rw [Fields.get?, if_pos hfield]
      exact hexcluded _ List.mem_cons_self
    rw [apply, if_neg (by simp [hnonempty]), if_neg (mt hsearch.mp hnone),
      if_pos hflag]
    exact keep_eq_self fun entry hentry => .inl (hid entry hentry)

def idPath : Path := ⟨[.key idKey], List.cons_ne_nil _ _⟩

def cityPath : Path := ⟨[.key "address", .key "city"], List.cons_ne_nil _ _⟩

/-- Ann has an identifier, a name, an address and two tags. -/
def ann : Value :=
  .object [(idKey, .ofInt 1), ("name", .string "Ann"),
    ("address", .object [("city", .string "Bern"),
      ("street", .string "Aargauerstalden")]),
    ("tags", .array [.string "a", .string "b"])]

def hideId : List (String × Value) := [(idKey, .ofInt 0)]

def hideIdAndCity : List (String × Value) :=
  [(idKey, .ofInt 0), ("address.city", .ofInt 0)]

/-- With her city hidden, a search and a pipeline give the rest of Ann. With
only her identifier hidden a pipeline gives the rest of her, and a search gives
nothing of her. -/
theorem exclude_removes_ann :
    Lists Value.isZero hideIdAndCity [idPath, cityPath] ∧
      Lists Value.isZero hideId [idPath] ∧
      Aggregation.project hideIdAndCity ann =
        .ok (without [idPath, cityPath] ann) ∧
      apply hideIdAndCity ann = .ok (without [idPath, cityPath] ann) ∧
      cityPath.get (without [idPath] ann) = some (.string "Bern") ∧
      Aggregation.project hideId ann = .ok (without [idPath] ann) ∧
      apply hideId ann = .ok (.object []) := by
  have hid : Path.parse idKey = .ok idPath := Filter.parse_idKey
  have hcity : Path.parse "address.city" = .ok cityPath := by decide +kernel
  have hboth : Lists Value.isZero hideIdAndCity [idPath, cityPath] :=
    ⟨List.cons_ne_nil _ _, by decide +kernel, .cons hid (.cons hcity .nil)⟩
  have hone : Lists Value.isZero hideId [idPath] :=
    ⟨List.cons_ne_nil _ _, by decide +kernel, .cons hid .nil⟩
  obtain ⟨hprojected, hsearched, -, -⟩ := exclude_removes hboth ann
  obtain ⟨hidless, -, hnothing, hkept⟩ := exclude_removes hone ann
  have hread := hkept cityPath (by decide +kernel)
  exact ⟨hboth, hone, hprojected, hsearched ⟨_, .tail _ (.head _), by decide⟩,
    hread.trans (by decide +kernel), hidless, hnothing (by decide +kernel)⟩

/-! ## Building anew -/

/-- Two values have the same identifier, or none. -/
def SharesId (doc v : Value) : Prop := v.field? idKey = doc.field? idKey

/-- They then agree on everything below it. -/
theorem SharesId.lookup_eq (h : SharesId doc v) (rest : List Segment) :
    Path.lookup (.key idKey :: rest) v =
      Path.lookup (.key idKey :: rest) doc := by
  rw [Path.lookup, Path.lookup, ← Path.field?_eq_child?,
    ← Path.field?_eq_child?, h]

/-- What is copied from a document does not touch its identifier: it is what is
there, or it is elsewhere. -/
theorem SharesId.assign {segments : List Segment} {u : Value}
    (h : SharesId doc v) (hne : segments ≠ [])
    (hx : Path.lookup segments doc = some x)
    (hassign : Path.assign segments x v = (u, .ok ())) : SharesId doc u := by
  obtain ⟨segment, rest, rfl⟩ := List.exists_cons_of_ne_nil hne
  by_cases hkey : segment = .key idKey
  · subst hkey
    rw [← h.lookup_eq] at hx
    rw [Path.assign_of_lookup hx] at hassign
    cases hassign
    exact h
  · have hfield := Path.field?_assign (Path.text_ne_idKey hkey) rest x v
    rw [hassign] at hfield
    exact hfield.trans h

/-- The assignments that copy what paths lead to in a document. -/
def copies (doc : Value) (paths : List Path) : List (List Segment × Value) :=
  paths.filterMap fun path => (path.get doc).map fun v => (path.segments, v)

theorem copies_cons_of_none (h : path.get doc = none) :
    copies doc (path :: paths) = copies doc paths :=
  List.filterMap_cons_none (by rw [h, Option.map_none])

theorem copies_cons_of_some (h : path.get doc = some x) :
    copies doc (path :: paths) = (path.segments, x) :: copies doc paths :=
  List.filterMap_cons_some (by rw [h, Option.map_some])

theorem mem_copies {write : List Segment × Value} : write ∈ copies doc paths ↔
    ∃ path ∈ paths, path.segments = write.1 ∧ path.get doc = some write.2 := by
  obtain ⟨p, x⟩ := write
  simp only [copies, List.mem_filterMap, Option.map_eq_some_iff, Prod.mk.injEq]
  refine exists_congr fun path => and_congr_right fun _ => ⟨?_, ?_⟩
  · rintro ⟨y, hy, hpath, rfl⟩
    exact ⟨hpath, hy⟩
  · rintro ⟨hpath, hy⟩
    exact ⟨x, hy, hpath, rfl⟩

theorem ne_nil_of_mem_copies {write : List Segment × Value}
    (h : write ∈ copies doc paths) :
    write.1 ≠ [] := by
  obtain ⟨path, -, hsegments, -⟩ := mem_copies.mp h
  exact hsegments ▸ path.nonempty

theorem keep_cons_of_none {field : String} {flag : Value}
    {rest : List (String × Value)} (hfield : field ≠ idKey)
    (hflag : isExcluded flag = false) (hpath : Path.parse field = .ok path)
    (h : path.get doc = none) (v : Value) :
    keep doc ((field, flag) :: rest) v = keep doc rest v := by
  rw [keep, if_neg (by simp [hfield, hflag]), hpath]
  simp only [bind, Except.bind, h]

theorem keep_cons_of_some {field : String} {flag : Value}
    {rest : List (String × Value)} (hfield : field ≠ idKey)
    (hflag : isExcluded flag = false) (hpath : Path.parse field = .ok path)
    (h : path.get doc = some x) (v : Value) :
    keep doc ((field, flag) :: rest) v = path.set x v >>= keep doc rest := by
  rw [keep, if_neg (by simp [hfield, hflag]), hpath]
  simp only [bind, Except.bind, h]

/-- A projection that excludes nothing makes the copies one after the other. -/
theorem keep_eq_ok_iff
    (hflags : ∀ entry ∈ projection, isExcluded entry.2 = false)
    (hpaths : List.Forall₂ (fun entry path => Path.parse entry.1 = .ok path)
      projection paths)
    (hid : SharesId doc v) :
    keep doc projection v = .ok result ↔
      Assigned (copies doc paths) v result := by
  induction hpaths generalizing v with
  | nil =>
      refine ⟨fun h => ?_, fun h => ?_⟩
      · cases h
        exact .nil _
      · change Assigned [] v result at h
        cases h
        rfl
  | @cons entry path rest paths hpath hpaths ih =>
      obtain ⟨hflag, hrest⟩ := List.forall_mem_cons.mp hflags
      obtain ⟨field, flag⟩ := entry
      by_cases hfield : field = idKey
      · -- The identifier is passed over, and to copy it would change nothing.
        subst hfield
        cases Except.ok.inj (hpath.symm.trans Filter.parse_idKey)
        rw [keep, if_pos (.inl rfl), ih hrest hid]
        cases hget : Path.get ⟨[.key idKey], by simp⟩ doc with
        | none => rw [copies_cons_of_none hget]
        | some x =>
            rw [copies_cons_of_some hget, Path.assigned_cons_iff]
            have hsame : Path.assign [.key idKey] x v = (v, .ok ()) :=
              Path.assign_of_lookup ((hid.lookup_eq []).trans hget)
            simp [hsame]
      · cases hget : path.get doc with
        | none =>
            rw [keep_cons_of_none hfield hflag hpath hget,
              copies_cons_of_none hget]
            exact ih hrest hid
        | some x =>
            rw [keep_cons_of_some hfield hflag hpath hget,
              copies_cons_of_some hget, bind_eq_ok, Path.assigned_cons_iff]
            refine exists_congr fun u => ?_
            rw [Path.set_eq_ok_iff]
            exact and_congr_right fun hassign =>
              ih hrest (hid.assign path.nonempty hget hassign)

theorem sharesId_of_assigned (h : Assigned (copies doc paths) v result)
    (hid : SharesId doc v) :
    SharesId doc result := by
  induction paths generalizing v with
  | nil =>
      change Assigned [] v result at h
      cases h
      exact hid
  | cons path rest ih =>
      cases hget : path.get doc with
      | none =>
          rw [copies_cons_of_none hget] at h
          exact ih h hid
      | some x =>
          rw [copies_cons_of_some hget, Path.assigned_cons_iff] at h
          obtain ⟨u, hassign, hrest⟩ := h
          exact ih hrest (hid.assign path.nonempty hget hassign)

/-! ## The start -/

theorem exists_fields_idOnly (id : Option Value) :
    ∃ fields, idOnly id = .object fields ∧
    Fields.get? idKey fields = id ∧ ∀ key, key ≠ idKey →
      Fields.get? key fields = none := by
  cases id with
  | none => exact ⟨[], rfl, rfl, fun _ _ => rfl⟩
  | some v =>
      exact ⟨[(idKey, v)], rfl, rfl, fun key hkey => if_neg (Ne.symm hkey)⟩

theorem sharesId_idOnly (doc : Value) :
    SharesId doc (idOnly (doc.field? idKey)) := by
  obtain ⟨fields, hfields, hid, -⟩ := exists_fields_idOnly (doc.field? idKey)
  rw [SharesId, hfields]
  exact hid

/-- Copies below the identifier find there what they assign. -/
theorem writable_under_idKey (doc : Value) (paths : List Path) :
    Writable (under idKey (copies doc paths))
      ((doc.field? idKey).getD .null) := by
  refine ⟨_, Path.assigned_self fun write hwrite => ?_⟩
  obtain ⟨rest, x⟩ := write
  obtain ⟨segment, htext, hmem⟩ := Path.mem_under.mp hwrite
  obtain ⟨path, -, hsegments, hget⟩ := mem_copies.mp hmem
  have hkey : segment = .key idKey := by
    by_contra hne
    exact Path.text_ne_idKey hne htext
  rw [Path.get, hsegments, hkey, Path.lookup, ← Path.field?_eq_child?] at hget
  obtain ⟨id, hid, hrest⟩ := Option.bind_eq_some_iff.mp hget
  rw [hid]
  exact hrest

/-! ## What is built -/

theorem pairwise_copies
    (hdiverge : paths.Pairwise fun p q => Diverge p.segments q.segments)
    (doc : Value) : (copies doc paths).Pairwise fun a b => Diverge a.1 b.1 := by
  refine List.pairwise_filterMap.mpr (hdiverge.imp ?_)
  intro p q hpq a ha b hb
  obtain ⟨x, -, rfl⟩ := Option.map_eq_some_iff.mp ha
  obtain ⟨y, -, rfl⟩ := Option.map_eq_some_iff.mp hb
  exact hpq

/-- The copies succeed if at every place but the root and the identifier they go
on with segments that fit, and only then. -/
theorem writable_copies_iff
    (hdiverge : paths.Pairwise fun p q => Diverge p.segments q.segments) :
    Writable (copies doc paths) (idOnly (doc.field? idKey)) ↔
      ∀ key place, key ≠ idKey →
        Fit (steps (key :: place) (copies doc paths)) := by
  obtain ⟨fields, hfields, hid, hnone⟩ :=
    exists_fields_idOnly (doc.field? idKey)
  have hbelow : ∀ key, Writable (under key (copies doc paths)) .null ↔
      ∀ place, Fit (steps (key :: place) (copies doc paths)) := fun key =>
    Path.writable_null_iff
      (Path.pairwise_under (pairwise_copies hdiverge doc) key)
  rw [hfields, Path.writable_object_iff fun _ => ne_nil_of_mem_copies]
  refine ⟨fun h key place hkey => ?_, fun h key => ?_⟩
  · have hwritable := h key
    rw [hnone key hkey] at hwritable
    exact (hbelow key).mp hwritable place
  · by_cases hkey : key = idKey
    · rw [hkey, hid]
      exact writable_under_idKey doc paths
    · rw [hnone key hkey]
      exact (hbelow key).mpr fun place => h key place hkey

/-- A path ends at an element of an array that the copies pad, which is never at
or below the identifier. -/
def PaddedBy (writes : List (List Segment × Value)) (path : Path) : Prop :=
  ∃ segment rest, path.segments = segment :: rest ∧ segment.text ≠ idKey ∧
    Padded rest (under segment.text writes)

theorem paddedBy_iff {writes : List (List Segment × Value)} {segment : Segment}
    {rest : List Segment} (h : path.segments = segment :: rest) :
    PaddedBy writes path ↔ segment.text ≠ idKey ∧
      Padded rest (under segment.text writes) := by
  refine ⟨?_, fun hbelow => ⟨segment, rest, h, hbelow⟩⟩
  rintro ⟨first, more, hfirst, hbelow⟩
  cases h.symm.trans hfirst
  exact hbelow

/-- Nothing is copied at a path that leads nowhere, and nothing at a part of it
or in it. -/
theorem diverge_of_absent
    (hdiverge : paths.Pairwise fun p q => Diverge p.segments q.segments)
    (hpath : path ∈ paths) (habsent : path.get doc = none) :
    ∀ write ∈ copies doc paths, Diverge write.1 path.segments := by
  intro write hwrite
  obtain ⟨other, hother, hsame, hget⟩ := mem_copies.mp hwrite
  have hne : other ≠ path := by
    rintro rfl
    rw [habsent] at hget
    cases hget
  have : Std.Symm fun p q : Path => Diverge p.segments q.segments :=
    ⟨fun _ _ => Diverge.symm⟩
  rw [← hsame]
  exact hdiverge.forall hother hpath hne

theorem get_of_absent
    (hdiverge : paths.Pairwise fun p q => Diverge p.segments q.segments)
    (h : Assigned (copies doc paths) (idOnly (doc.field? idKey)) result)
    (hpath : path ∈ paths) (habsent : path.get doc = none) :
    (path.get result = some .null ∧ PaddedBy (copies doc paths) path) ∨
      (path.get result = none ∧ ¬ PaddedBy (copies doc paths) path) := by
  obtain ⟨segment, rest, hsegments⟩ := List.exists_cons_of_ne_nil path.nonempty
  have hapart := diverge_of_absent hdiverge hpath habsent
  rw [paddedBy_iff hsegments]
  rw [Path.get, hsegments] at habsent ⊢
  rw [hsegments] at hapart
  by_cases hkey : segment = .key idKey
  · subst hkey
    have hid := sharesId_of_assigned h (sharesId_idOnly doc)
    exact .inr ⟨(hid.lookup_eq rest).trans habsent, fun hbelow => hbelow.1 rfl⟩
  · have htext := Path.text_ne_idKey hkey
    obtain ⟨fields, hfields, -, hnone⟩ :=
      exists_fields_idOnly (doc.field? idKey)
    rw [hfields] at h
    obtain ⟨after, rfl, -, hparts⟩ := h.object fun _ => ne_nil_of_mem_copies
    obtain ⟨hgone, hpart⟩ := hparts segment.text
    rw [hnone _ htext] at hgone hpart
    by_cases hrest : rest = []
    · subst hrest
      have hunder := Path.under_eq_nil_of_diverge hapart
      refine .inr ⟨?_, fun hbelow => hbelow.2.ne_nil hunder⟩
      rw [Path.lookup, Path.child?, hgone.mpr ⟨rfl, hunder⟩, Option.bind_none]
    · rw [Path.lookup_cons_getD hrest, and_iff_right htext]
      exact Path.unwritten_of_diverge hpart (Path.diverge_under hapart) hrest

/-! ## Searches and pipelines -/

theorem isZero_of_isIncluded (h : Aggregation.isIncluded v = true) :
    v.isZero = false := by
  cases v with
  | number n =>
      have hone : n.units = Double.one := by
        simpa [Aggregation.isIncluded, Expression.isOne, Value.asNumber?,
          Number.isOne] using h
      have hne : Double.one ≠ 0 := by decide
      simp [Value.isZero, Value.asNumber?, Number.isZero, hone, hne]
  | _ => rfl

theorem isExcluded_of_isIncluded (h : Aggregation.isIncluded v = true) :
    isExcluded v = false := by
  cases v with
  | bool b =>
      have hb : b = true := h
      rw [hb]
      rfl
  | _ => exact isZero_of_isIncluded h

theorem computeFields_eq_keep
    (h : ∀ entry ∈ projection, Aggregation.isIncluded entry.2 = true)
    (doc v : Value) :
    Aggregation.computeFields doc projection v = keep doc projection v := by
  induction projection generalizing v with
  | nil => rfl
  | cons entry rest ih =>
      obtain ⟨hentry, hrest⟩ := List.forall_mem_cons.mp h
      obtain ⟨field, flag⟩ := entry
      have hflag : isExcluded flag = false := isExcluded_of_isIncluded hentry
      rw [Aggregation.computeFields, keep]
      by_cases hfield : field = idKey
      · rw [if_pos hfield, if_pos (.inl hfield), ih hrest]
      · have hincluded : Aggregation.isIncluded flag = true := hentry
        rw [if_neg hfield, if_neg (by simp [hfield, hflag])]
        cases Path.parse field with
        | error e => rfl
        | ok path =>
            simp only [hincluded, ih hrest]
            rfl

theorem apply_eq_keep (h : Lists Aggregation.isIncluded projection paths)
    (doc : Value) :
    apply projection doc = keep doc projection (idOnly (doc.field? idKey)) := by
  have hflags : ∀ entry ∈ projection, isExcluded entry.2 = false :=
    fun entry hentry => isExcluded_of_isIncluded (h.flags entry hentry)
  have hnonempty : projection.isEmpty = false := by simpa using h.nonempty
  have hany :
      (projection.any fun (field, flag) => field != idKey && isExcluded flag) =
        false := by
    refine List.any_eq_false.mpr fun entry hentry => ?_
    simp [hflags entry hentry]
  have hid : (Fields.get? idKey projection).any isExcluded = false := by
    cases hget : Fields.get? idKey projection with
    | none => rfl
    | some flag => exact hflags _ (Fields.mem_of_get? hget)
  rw [apply, if_neg (by simp [hnonempty]), if_neg (by simp [hany]),
    if_neg (by simp [hid])]

theorem project_eq_keep (h : Lists Aggregation.isIncluded projection paths)
    (doc : Value) :
    Aggregation.project projection doc =
      keep doc projection (idOnly (doc.field? idKey)) := by
  have hany : (projection.any fun (_, spec) => spec.isZero) = false := by
    refine List.any_eq_false.mpr fun entry hentry => ?_
    simp [isZero_of_isIncluded (h.flags entry hentry)]
  have hid : Aggregation.projectId doc (Fields.get? idKey projection) =
      .ok (doc.field? idKey) := by
    cases hget : Fields.get? idKey projection with
    | none => rfl
    | some spec => exact if_pos (h.flags _ (Fields.mem_of_get? hget))
  rw [Aggregation.project, if_neg (by simp [hany]), hid]
  exact computeFields_eq_keep h.flags doc _

/-- A projection whose flags are all one or true does the same in a search and
in a pipeline. At paths that diverge it succeeds if at every place but the root
and the identifier the paths that lead somewhere in the document go on with
segments that fit, and only then. In what it gives they lead to what they lead
to in the document, and the others to nothing, or to null where an array was
padded. -/
theorem include_keeps (h : Lists Aggregation.isIncluded projection paths)
    (hdiverge : paths.Pairwise fun p q => Diverge p.segments q.segments)
    (doc : Value) :
    Aggregation.project projection doc = apply projection doc ∧
      ((∃ result, apply projection doc = .ok result) ↔
        ∀ key place, key ≠ idKey →
          Fit (steps (key :: place) (copies doc paths))) ∧
      ∀ result, apply projection doc = .ok result → ∀ path ∈ paths,
        (∀ v, path.get doc = some v → path.get result = some v) ∧
          (path.get doc = none →
            (path.get result = some .null ∧ PaddedBy (copies doc paths) path) ∨
              (path.get result = none ∧
                ¬ PaddedBy (copies doc paths) path)) := by
  have hassigned : ∀ result, apply projection doc = .ok result ↔
      Assigned (copies doc paths) (idOnly (doc.field? idKey)) result := by
    intro result
    rw [apply_eq_keep h]
    exact keep_eq_ok_iff (fun entry hentry =>
        isExcluded_of_isIncluded (h.flags entry hentry))
      h.paths (sharesId_idOnly doc)
  refine ⟨(project_eq_keep h doc).trans (apply_eq_keep h doc).symm, ?_, ?_⟩
  · rw [← writable_copies_iff hdiverge]
    exact exists_congr hassigned
  · intro result hresult path hpath
    have hwritten := (hassigned result).mp hresult
    refine ⟨fun v hv => ?_, get_of_absent hdiverge hwritten hpath⟩
    have hmem : (path.segments, v) ∈ copies doc paths :=
      mem_copies.mpr ⟨path, hpath, rfl, hv⟩
    exact hwritten.lookup_eq (pairwise_copies hdiverge doc) hmem

def listed : List (String × Value) :=
  [("address.city", .ofInt 1), ("tags.1", .bool true), ("age", .ofInt 1)]

def tagPath : Path := ⟨[.key "tags", .index 1], List.cons_ne_nil _ _⟩

def agePath : Path := ⟨[.key "age"], List.cons_ne_nil _ _⟩

/-- What is kept of Ann: her city, and her second tag after a null. She has no
age. -/
theorem include_keeps_ann :
    (Lists Aggregation.isIncluded listed [cityPath, tagPath, agePath] ∧
        [cityPath, tagPath, agePath].Pairwise fun p q =>
          Diverge p.segments q.segments) ∧
      ∃ result, Aggregation.project listed ann = .ok result ∧
        apply listed ann = .ok result ∧
        cityPath.get result = some (.string "Bern") ∧
        tagPath.get result = some (.string "b") ∧
        agePath.get result = none := by
  have hcity : Path.parse "address.city" = .ok cityPath := by decide +kernel
  have htag : Path.parse "tags.1" = .ok tagPath := by decide +kernel
  have hage : Path.parse "age" = .ok agePath := by decide +kernel
  have hlists : Lists Aggregation.isIncluded listed
      [cityPath, tagPath, agePath] :=
    ⟨List.cons_ne_nil _ _, by decide +kernel,
      .cons hcity (.cons htag (.cons hage .nil))⟩
  have hdiverge : [cityPath, tagPath, agePath].Pairwise fun p q =>
      Diverge p.segments q.segments := by
    decide +kernel
  obtain ⟨hsame, -, hread⟩ := include_keeps hlists hdiverge ann
  have happly : apply listed ann = .ok (.object [(idKey, .ofInt 1),
      ("address", .object [("city", .string "Bern")]),
      ("tags", .array [.null, .string "b"])]) := by
    decide +kernel
  refine ⟨⟨hlists, hdiverge⟩, _, hsame.trans happly, happly, ?_, ?_, ?_⟩
  · exact (hread _ happly cityPath (by simp)).1 _ (by decide +kernel)
  · exact (hread _ happly tagPath (by simp)).1 _ (by decide +kernel)
  · rcases (hread _ happly agePath (by simp)).2 (by decide +kernel) with
      ⟨-, hpadded⟩ | ⟨hnone, -⟩
    · obtain ⟨segment, rest, hsegments, -, hbelow⟩ := hpadded
      cases hsegments
      cases hbelow
    · exact hnone

/-- Three times one document and two paths that are listed. The first makes an
array, into which a key does not fit, or an index is too far past its end, or
what it leads to is padded. -/
theorem include_keeps_part :
    (Lists Aggregation.isIncluded [("a.0", .ofInt 1), ("a.b", .ofInt 1)]
          [⟨[.key "a", .index 0], List.cons_ne_nil _ _⟩,
            ⟨[.key "a", .key "b"], List.cons_ne_nil _ _⟩] ∧
        Diverge [.key "a", .index 0] [.key "a", .key "b"] ∧
        apply [("a.0", .ofInt 1), ("a.b", .ofInt 1)]
            (.object [("a", .object [("0", .ofInt 1), ("b", .ofInt 2)])]) =
          .error (.typeMismatch (.fieldInArray "b"))) ∧
      (Lists Aggregation.isIncluded [("a.20000", .ofInt 1)]
          [⟨[.key "a", .index 20000], List.cons_ne_nil _ _⟩] ∧
        apply [("a.20000", .ofInt 1)]
          (.object [("a", .object [("20000", .ofInt 1)])]) =
          .error (.invalidPath (.farIndex 20000 0))) ∧
      (Lists Aggregation.isIncluded [("a.0", .ofInt 1), ("a.1", .ofInt 1)]
          [⟨[.key "a", .index 0], List.cons_ne_nil _ _⟩,
            ⟨[.key "a", .index 1], List.cons_ne_nil _ _⟩] ∧
        Diverge [.key "a", .index 0] [.key "a", .index 1] ∧
        apply [("a.0", .ofInt 1), ("a.1", .ofInt 1)]
            (.object [("a", .object [("1", .ofInt 5)])]) =
          .ok (.object [("a", .array [.null, .ofInt 5])]) ∧
        Path.lookup [.key "a", .index 0]
          (.object [("a", .object [("1", .ofInt 5)])]) = none ∧
        Path.lookup [.key "a", .index 0]
          (.object [("a", .array [.null, .ofInt 5])]) =
          some .null) := by
  have hfirst : Path.parse "a.0" =
      .ok ⟨[.key "a", .index 0], List.cons_ne_nil _ _⟩ := by
    decide +kernel
  have hsecond : Path.parse "a.1" =
      .ok ⟨[.key "a", .index 1], List.cons_ne_nil _ _⟩ := by
    decide +kernel
  have hkey : Path.parse "a.b" =
      .ok ⟨[.key "a", .key "b"], List.cons_ne_nil _ _⟩ := by
    decide +kernel
  have hfar : Path.parse "a.20000" =
      .ok ⟨[.key "a", .index 20000], List.cons_ne_nil _ _⟩ := by
    decide +kernel
  exact ⟨⟨⟨List.cons_ne_nil _ _, by decide +kernel,
      .cons hfirst (.cons hkey .nil)⟩,
      by decide, by decide +kernel⟩,
    ⟨⟨List.cons_ne_nil _ _, by decide +kernel, .cons hfar .nil⟩,
      by decide +kernel⟩,
    ⟨⟨List.cons_ne_nil _ _, by decide +kernel, .cons hfirst (.cons hsecond .nil)⟩,
      by decide, by decide +kernel, rfl, rfl⟩⟩

end Projection

end DocumentStore
