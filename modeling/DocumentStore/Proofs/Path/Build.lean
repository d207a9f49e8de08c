import DocumentStore.Proofs.Path.Removal
import DocumentStore.Proofs.Path.Several

/-!
# Building a value by assignments

Assignments at paths that diverge build a value up where nothing is. Whether all
of them succeed can be seen from the paths alone. At every place the first
assignment that comes through makes an object or an array, and those that come
through later have to fit into it: `steps` are the segments with which they go
on from a place, `Fit` says that the later ones fit, and `writable_null_iff`
that nothing else can go wrong.

The other question is what is found where nothing was assigned. It is nothing,
unless an array was padded there, and `Padded` says from the paths alone when
that is. Both are proved one step at a time, since what is made under a key is
the work of the assignments that lead there.
-/

namespace DocumentStore.Path

variable {segment : Segment} {p q rest : List Segment} {v w x : Value}
  {key : String}
  {write : List Segment × Value} {writes : List (List Segment × Value)}

/-- All of several assignments succeed, one after the other. -/
def Writable (writes : List (List Segment × Value)) (v : Value) : Prop :=
  ∃ w, Assigned writes v w

theorem writable_nil (v : Value) : Writable [] v := ⟨v, .nil v⟩

theorem writable_cons_iff :
    Writable ((p, x) :: writes) v ↔
      ∃ u, assign p x v = (u, .ok ()) ∧ Writable writes u := by
  refine ⟨?_, ?_⟩
  · rintro ⟨w, h⟩
    obtain ⟨u, h, hrest⟩ := assigned_cons_iff.mp h
    exact ⟨u, h, w, hrest⟩
  · rintro ⟨u, h, w, hrest⟩
    exact ⟨w, .cons h hrest⟩

/-- The first assignment makes the container that it needs. -/
theorem writable_container_iff :
    Writable ((segment :: rest, x) :: writes) (container segment v) ↔
    Writable ((segment :: rest, x) :: writes) v := by
  rw [writable_cons_iff, writable_cons_iff, assign, assign, container_container]

/-! ## Where assignments lead -/

/-- The segments with which assignments go on from a place, in the order of the
assignments. The place is given by the keys that lead to it. -/
def steps : List String → List (List Segment × Value) → List Segment
  | [], writes => writes.filterMap fun write => write.1.head?
  | key :: place, writes => steps place (under key writes)

theorem steps_nil (place : List String) : steps place [] = [] := by
  induction place with
  | nil => rfl
  | cons key place ih => exact ih

theorem steps_here_cons (segment : Segment) (rest : List Segment) (x : Value)
    (writes : List (List Segment × Value)) :
    steps [] ((segment :: rest, x) :: writes) =
      segment :: steps [] writes := rfl

theorem mem_steps_here :
    segment ∈ steps [] writes ↔ ∃ rest x, (segment :: rest, x) ∈ writes := by
  rw [steps, List.mem_filterMap]
  refine ⟨?_, ?_⟩
  · rintro ⟨⟨p, x⟩, hmem, hhead⟩
    obtain ⟨rest, rfl⟩ := List.head?_eq_some_iff.mp hhead
    exact ⟨rest, x, hmem⟩
  · rintro ⟨rest, x, hmem⟩
    exact ⟨_, hmem, rfl⟩

theorem exists_step_of_under (h : under key writes ≠ []) :
    ∃ segment ∈ steps [] writes, segment.text = key := by
  obtain ⟨⟨rest, x⟩, hmem⟩ := List.exists_mem_of_ne_nil _ h
  obtain ⟨segment, htext, hwrite⟩ := mem_under.mp hmem
  exact ⟨segment, mem_steps_here.mpr ⟨rest, x, hwrite⟩, htext⟩

theorem under_ne_nil_of_step (h : segment ∈ steps [] writes) :
    under segment.text writes ≠ [] := by
  obtain ⟨rest, x, hmem⟩ := mem_steps_here.mp h
  exact List.ne_nil_of_mem (mem_under.mpr ⟨segment, rfl, hmem⟩)

/-! ## What fits -/

/-- Indices can be written one after the other in an array of some length: none
of them is too far past the end when its turn comes. A key cannot. -/
def FitArray : Nat → List Segment → Prop
  | _, [] => True
  | _, .key _ :: _ => False
  | length, .index i :: rest =>
      i - length ≤ greatestGap ∧ FitArray (max length (i + 1)) rest

/-- Segments can be written one after the other where nothing is. The first of
them decides: a key makes an object, into which all others fit, and an index
makes an array. -/
def Fit : List Segment → Prop
  | .index i :: rest => FitArray 0 (.index i :: rest)
  | _ => True

theorem FitArray.eq_index {length : Nat} {segments : List Segment}
    (h : FitArray length segments) (hmem : segment ∈ segments) :
    ∃ i, segment = .index i := by
  induction segments generalizing length with
  | nil => cases hmem
  | cons first more ih =>
      cases first with
      | key name => exact h.elim
      | index i =>
          rcases List.mem_cons.mp hmem with rfl | hmem
          · exact ⟨i, rfl⟩
          · exact ih h.2 hmem

/-! ## One step -/

theorem writable_object_iff {fields : List (String × Value)}
    (hproper : ∀ write ∈ writes, write.1 ≠ []) :
    Writable writes (.object fields) ↔
      ∀ key, Writable (under key writes)
        ((Fields.get? key fields).getD .null) := by
  induction writes generalizing fields with
  | nil => exact iff_of_true (writable_nil _) fun key => writable_nil _
  | cons write others ih =>
      obtain ⟨hfirst, hothers⟩ := List.forall_mem_cons.mp hproper
      obtain ⟨p, x⟩ := write
      obtain ⟨segment, rest, rfl⟩ := List.exists_cons_of_ne_nil hfirst
      rw [writable_cons_iff]
      refine ⟨?_, ?_⟩
      · rintro ⟨u, h, hrest⟩ key
        rw [assign_object, Prod.mk.injEq] at h
        obtain ⟨rfl, hok⟩ := h
        have hkey := (ih hothers).mp hrest key
        by_cases htext : segment.text = key
        · subst htext
          rw [Fields.get?_insert_self] at hkey
          rw [under_cons_of_eq rfl, writable_cons_iff]
          exact ⟨_, Prod.ext rfl hok, hkey⟩
        · rw [Fields.get?_insert_of_ne htext] at hkey
          rwa [under_cons_of_ne htext]
      · intro h
        have hkey := h segment.text
        rw [under_cons_of_eq rfl, writable_cons_iff] at hkey
        obtain ⟨part, hpart, hmore⟩ := hkey
        refine ⟨.object (Fields.insert segment.text part fields), ?_,
          (ih hothers).mpr fun key => ?_⟩
        · rw [assign_object, below, hpart]
        · by_cases htext : segment.text = key
          · subst htext
            rwa [Fields.get?_insert_self]
          · have hother := h key
            rw [under_cons_of_ne htext] at hother
            rwa [Fields.get?_insert_of_ne htext]

theorem admits_array_iff {items : List Value} :
    Admits segment (.array items) ↔
      ∃ i, segment = .index i ∧ i - items.length ≤ greatestGap := by
  refine ⟨?_, ?_⟩
  · intro h
    cases h with
    | array i items hgap => exact ⟨i, rfl, hgap⟩
  · rintro ⟨i, rfl, hgap⟩
    exact .array i items hgap

theorem writable_array_iff {items : List Value}
    (hproper : ∀ write ∈ writes, write.1 ≠ []) :
    Writable writes (.array items) ↔ FitArray items.length (steps [] writes) ∧
      ∀ i, Writable (under (Segment.index i).text writes)
        (items[i]?.getD .null) := by
  induction writes generalizing items with
  | nil => exact iff_of_true (writable_nil _) ⟨trivial, fun i => writable_nil _⟩
  | cons write others ih =>
      obtain ⟨hfirst, hothers⟩ := List.forall_mem_cons.mp hproper
      obtain ⟨p, x⟩ := write
      obtain ⟨segment, rest, rfl⟩ := List.exists_cons_of_ne_nil hfirst
      rw [writable_cons_iff, steps_here_cons]
      cases segment with
      | key name =>
          refine iff_of_false ?_ fun h => h.1
          rintro ⟨u, h, -⟩
          obtain ⟨i, hindex, -⟩ :=
            admits_array_iff.mp (assign_cons_eq_ok_iff.mp h).1
          cases hindex
      | index i =>
          refine ⟨?_, ?_⟩
          · rintro ⟨u, h, hrest⟩
            obtain ⟨hadmits, part, hpart, rfl⟩ := assign_cons_eq_ok_iff.mp h
            obtain ⟨_, hindex, hgap⟩ := admits_array_iff.mp hadmits
            cases hindex
            obtain ⟨hfit, helements⟩ := (ih hothers).mp hrest
            rw [length_pad_set] at hfit
            refine ⟨⟨hgap, hfit⟩, fun j => ?_⟩
            have helement := helements j
            rw [getD_pad_set] at helement
            by_cases hij : i = j
            · subst hij
              rw [if_pos rfl] at helement
              rw [under_cons_of_eq rfl, writable_cons_iff]
              exact ⟨part, hpart, helement⟩
            · rw [if_neg hij] at helement
              rwa [under_cons_of_ne fun htext => hij (eq_of_text_index htext)]
          · rintro ⟨⟨hgap, hfit⟩, helements⟩
            have hindex := helements i
            rw [under_cons_of_eq rfl, writable_cons_iff] at hindex
            obtain ⟨part, hpart, hmore⟩ := hindex
            refine ⟨_, assign_cons_eq_ok_iff.mpr
              ⟨.array i items hgap, part, hpart, rfl⟩,
              (ih hothers).mpr ⟨?_, fun j => ?_⟩⟩
            · rwa [length_pad_set]
            · rw [getD_pad_set]
              by_cases hij : i = j
              · subst hij
                rwa [if_pos rfl]
              · have helement := helements j
                rw [under_cons_of_ne fun htext => hij
                  (eq_of_text_index htext)] at helement
                rwa [if_neg hij]

/-- Where nothing is, the first segments have to fit into one container, and the
rest is for each key on its own. -/
theorem writable_null_step (hproper : ∀ write ∈ writes, write.1 ≠ []) :
    Writable writes .null ↔
      Fit (steps [] writes) ∧ ∀ key, Writable (under key writes) .null := by
  cases writes with
  | nil =>
      exact iff_of_true (writable_nil _) ⟨trivial, fun key => writable_nil _⟩
  | cons write others =>
      obtain ⟨p, x⟩ := write
      obtain ⟨segment, rest, rfl⟩ :=
        List.exists_cons_of_ne_nil (hproper _ List.mem_cons_self)
      rw [← writable_container_iff, steps_here_cons]
      cases segment with
      | key name =>
          rw [show container (.key name) .null = .object [] from rfl,
            writable_object_iff hproper]
          exact (and_iff_right trivial).symm
      | index i =>
          rw [show container (.index i) .null = .array [] from rfl,
            writable_array_iff hproper]
          refine and_congr_right fun hfit => ⟨fun h key => ?_, fun h i => h _⟩
          by_cases hkey : under key ((.index i :: rest, x) :: others) = []
          · rw [hkey]
            exact writable_nil _
          · obtain ⟨segment, hmem, rfl⟩ := exists_step_of_under hkey
            obtain ⟨j, rfl⟩ := FitArray.eq_index hfit hmem
            exact h j

/-- Assignments at diverging paths build a value up from null if at every place
they go on with segments that fit, and only then. -/
theorem writable_null_iff
    (hdiverge : writes.Pairwise fun a b => Diverge a.1 b.1) :
    Writable writes .null ↔ ∀ place, Fit (steps place writes) := by
  induction writes, hdiverge using under_induction with
  | nil =>
      refine iff_of_true (writable_nil _) fun place => ?_
      rw [steps_nil]
      trivial
  | leaf x =>
      refine iff_of_true ⟨x, .cons rfl (.nil x)⟩ fun place => ?_
      cases place with
      | nil => trivial
      | cons key place =>
          rw [steps, show under key [([], x)] = [] from rfl, steps_nil]
          trivial
  | node writes hdiverge hproper ih =>
      rw [writable_null_step hproper]
      refine ⟨?_, fun h =>
        ⟨h [], fun key => (ih key).mpr fun place => h (key :: place)⟩⟩
      rintro ⟨hfit, hparts⟩ place
      cases place with
      | nil => exact hfit
      | cons key place => exact (ih key).mp (hparts key) place

/-! ## What is found where nothing was assigned -/

/-- A path ends at an element of an array that was padded. All assignments that
come through go on with indices there, one of them with a greater index; and
where the path leads through an array before, it has an index itself. -/
inductive Padded : List Segment → List (List Segment × Value) → Prop
  | here {i j : Nat} {writes : List (List Segment × Value)}
      (hindices : ∀ step ∈ steps [] writes, ∃ k, step = .index k)
      (hstep : .index j ∈ steps [] writes) (hlt : i < j) :
      Padded [.index i] writes
  | onward {segment : Segment} {rest : List Segment}
      {writes : List (List Segment × Value)}
      (hkind : (∃ i, segment = .index i) ∨ ∃ name, .key name ∈ steps [] writes)
      (h : Padded rest (under segment.text writes)) :
      Padded (segment :: rest) writes

theorem Padded.ne_nil (h : Padded q writes) : writes ≠ [] := by
  induction h with
  | here _ hstep _ =>
      rintro rfl
      cases hstep
  | onward _ _ ih =>
      rintro rfl
      exact ih rfl

theorem padded_cons_iff (hrest : rest ≠ []) : Padded (segment :: rest) writes ↔
    ((∃ i, segment = .index i) ∨ ∃ name, .key name ∈ steps [] writes) ∧
      Padded rest (under segment.text writes) := by
  refine ⟨?_, fun h => .onward h.1 h.2⟩
  intro h
  cases h with
  | here => exact absurd rfl hrest
  | onward hkind h => exact ⟨hkind, h⟩

theorem lookup_cons_getD (hrest : rest ≠ []) (v : Value) :
    lookup (segment :: rest) v =
      lookup rest ((child? segment v).getD .null) := by
  rw [lookup]
  cases child? segment v with
  | some part => rfl
  | none => exact (lookup_null hrest).symm

/-- Only an assignment to what a segment leads to does not diverge from it. -/
theorem under_eq_nil_of_diverge
    (h : ∀ write ∈ writes, Diverge write.1 [segment]) :
    under segment.text writes = [] := by
  refine List.eq_nil_iff_forall_not_mem.mpr ?_
  rintro ⟨rest, x⟩ hmem
  obtain ⟨other, htext, hwrite⟩ := mem_under.mp hmem
  rcases diverge_cons_iff.mp (h _ hwrite) with hne | ⟨-, hrest⟩
  · exact hne htext
  · exact not_diverge_nil_right _ hrest

theorem diverge_under
    (h : ∀ write ∈ writes, Diverge write.1 (segment :: rest)) :
    ∀ write ∈ under segment.text writes, Diverge write.1 rest := by
  rintro ⟨more, x⟩ hmem
  obtain ⟨other, htext, hwrite⟩ := mem_under.mp hmem
  rcases diverge_cons_iff.mp (h _ hwrite) with hne | ⟨-, hrest⟩
  · exact absurd htext hne
  · exact hrest

/-- What is found where nothing was assigned: null if the path is padded, and
nothing if not. -/
def Unwritten (q : List Segment) (writes : List (List Segment × Value))
    (w : Value) : Prop :=
  (lookup q w = some .null ∧ Padded q writes) ∨
    (lookup q w = none ∧ ¬ Padded q writes)

/-- It is found below the first segment, if the path can go on there. -/
theorem unwritten_cons (hrest : rest ≠ [])
    (hkind : (∃ i, segment = .index i) ∨ ∃ name, .key name ∈ steps [] writes)
    (h : Unwritten rest (under segment.text writes)
      ((child? segment w).getD .null)) :
    Unwritten (segment :: rest) writes w := by
  rw [Unwritten, lookup_cons_getD hrest, padded_cons_iff hrest,
    and_iff_right hkind]
  exact h

theorem unwritten_object (h : Assigned writes (.object []) w)
    (hproper : ∀ write ∈ writes, write.1 ≠ [])
    (hkey : .key key ∈ steps [] writes)
    (hdiverge : ∀ write ∈ writes, Diverge write.1 (segment :: rest))
    (hbelow : rest ≠ [] → ∀ part,
      Assigned (under segment.text writes) .null part →
      Unwritten rest (under segment.text writes) part) :
      Unwritten (segment :: rest) writes w := by
  obtain ⟨after, rfl, -, hparts⟩ := h.object hproper
  obtain ⟨hnone, hpart⟩ := hparts segment.text
  by_cases hrest : rest = []
  · subst hrest
    have hunder := under_eq_nil_of_diverge hdiverge
    refine .inr ⟨?_, ?_⟩
    · rw [lookup, child?, hnone.mpr ⟨rfl, hunder⟩, Option.bind_none]
    · intro hpadded
      cases hpadded with
      | here hindices _ _ =>
          obtain ⟨k, hk⟩ := hindices _ hkey
          cases hk
      | onward _ h => exact h.ne_nil hunder
  · exact unwritten_cons hrest (.inr ⟨key, hkey⟩) (hbelow hrest _ hpart)

/-- An element that no assignment leads to is padded if an array is long enough
to have it. -/
theorem padded_index_iff {i length : Nat}
    (hindices : ∀ step ∈ steps [] writes, ∃ k, step = .index k)
    (hunder : under (Segment.index i).text writes = [])
    (hlength : ∀ n, length ≤ n ↔
      0 ≤ n ∧ ∀ j, under (Segment.index j).text writes ≠ [] → j < n) :
    Padded [.index i] writes ↔ i < length := by
  refine ⟨?_, ?_⟩
  · intro hpadded
    cases hpadded with
    | @here _ j _ _ hstep hlt =>
        have hbound := ((hlength length).mp (Nat.le_refl _)).2 j
          (under_ne_nil_of_step hstep)
        omega
    | onward _ h => exact absurd hunder h.ne_nil
  · intro hlt
    have hnot : ¬ ∀ j, under (Segment.index j).text writes ≠ [] → j < i :=
      fun hall =>
      absurd ((hlength i).mpr ⟨Nat.zero_le i, hall⟩) (Nat.not_le.mpr hlt)
    obtain ⟨j, hj⟩ := not_forall.mp hnot
    obtain ⟨hunderj, hle⟩ := Classical.not_imp.mp hj
    obtain ⟨step, hstep, htext⟩ := exists_step_of_under hunderj
    obtain ⟨k, rfl⟩ := hindices step hstep
    cases eq_of_text_index htext
    have hne : i ≠ j := by
      rintro rfl
      exact hunderj hunder
    exact .here hindices hstep (by omega)

theorem unwritten_array (h : Assigned writes (.array []) w)
    (hproper : ∀ write ∈ writes, write.1 ≠ [])
    (hdiverge : ∀ write ∈ writes, Diverge write.1 (segment :: rest))
    (hbelow : rest ≠ [] → ∀ part,
      Assigned (under segment.text writes) .null part →
      Unwritten rest (under segment.text writes) part) :
      Unwritten (segment :: rest) writes w := by
  obtain ⟨hindices, after, rfl, hlength, helements⟩ := h.array hproper
  have hsteps : ∀ step ∈ steps [] writes, ∃ k, step = .index k := by
    intro step hstep
    obtain ⟨more, x, hmem⟩ := mem_steps_here.mp hstep
    obtain ⟨k, others, heq⟩ := hindices _ hmem
    exact ⟨k, (List.cons.inj heq).1⟩
  cases segment with
  | key name =>
      refine .inr ⟨rfl, ?_⟩
      intro hpadded
      cases hpadded with
      | onward hkind _ =>
          rcases hkind with ⟨i, hi⟩ | ⟨other, hother⟩
          · cases hi
          · obtain ⟨k, hk⟩ := hsteps _ hother
            cases hk
  | index i =>
      by_cases hrest : rest = []
      · subst hrest
        have hunder := under_eq_nil_of_diverge hdiverge
        have hpadded := padded_index_iff hsteps hunder hlength
        rw [Unwritten, hpadded, lookup_singleton, child?]
        by_cases hlt : i < after.length
        · have helement := helements i
          rw [hunder, List.getElem?_eq_getElem hlt] at helement
          refine .inl ⟨?_, hlt⟩
          rw [List.getElem?_eq_getElem hlt]
          generalize after[i] = element at helement
          cases helement
          rfl
        · exact .inr ⟨List.getElem?_eq_none (Nat.not_lt.mp hlt), hlt⟩
      · exact unwritten_cons hrest (.inl ⟨i, rfl⟩)
          (hbelow hrest _ (helements i))

/-- At a path that diverges from all assignments null is found in what they
build up if it was padded, and nothing otherwise. -/
theorem unwritten_of_diverge (h : Assigned writes .null w)
    (hdiverge : ∀ write ∈ writes, Diverge write.1 q) (hne : q ≠ []) :
    Unwritten q writes w := by
  induction q generalizing writes w with
  | nil => exact absurd rfl hne
  | cons segment rest ih =>
      have hproper : ∀ write ∈ writes, write.1 ≠ [] := fun write hmem hnil =>
        not_diverge_nil_left _ (hnil ▸ hdiverge write hmem)
      have hbelow : rest ≠ [] → ∀ part,
          Assigned (under segment.text writes) .null part →
          Unwritten rest (under segment.text writes) part :=
        fun hrest part hpart => ih hpart (diverge_under hdiverge) hrest
      cases writes with
      | nil =>
          cases h
          exact .inr ⟨lookup_null hne, fun hpadded => hpadded.ne_nil rfl⟩
      | cons write others =>
          obtain ⟨p, x⟩ := write
          obtain ⟨first, more, rfl⟩ :=
            List.exists_cons_of_ne_nil (hproper _ List.mem_cons_self)
          have hcontainer := h.container
          cases first with
          | key name =>
              exact unwritten_object hcontainer hproper List.mem_cons_self
                hdiverge hbelow
          | index i => exact unwritten_array hcontainer hproper hdiverge hbelow

end DocumentStore.Path
