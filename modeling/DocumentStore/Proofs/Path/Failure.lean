import DocumentStore.Proofs.Path.Frame

/-!
# What a failed assignment leaves

An assignment goes along its path and fails at the first segment that cannot be
written where it stands. By then it has made a container for that segment, if
there was none, and everything that leads to it; so what it leaves is what comes
of assigning that container at the segments before (`assign_eq_error`).

Mostly the container was there already, and then nothing has changed. It was not
if the segment is an index: an empty array admits fewer indices than an empty
object admits keys. `LeavesArray` is the one case in which a failure shows, and
`ne_of_assign_error_iff` says that it is the only one.
-/

namespace DocumentStore.Path

variable {segment : Segment} {segments : List Segment} {new v w : Value}
  {e : Error}

/-- What is found from where a segment leads, or nothing where it leads
nowhere. -/
theorem getD_lookup_cons (segment : Segment) (segments : List Segment)
    (v : Value) :
    (lookup (segment :: segments) v).getD .null =
      (lookup segments ((child? segment v).getD .null)).getD .null := by
  rw [lookup]
  cases child? segment v with
  | some part => rfl
  | none => cases segments <;> rfl

/-- An assignment that fails has assigned, at the segments before the one that
stopped it, a container for that one. -/
theorem assign_eq_error (h : assign segments new v = (w, .error e)) :
    ∃ done segment rest, segments = done ++ segment :: rest ∧
      check segment (container segment ((lookup done v).getD .null)) =
        .error e ∧
      assign done (container segment ((lookup done v).getD .null)) v =
        (w, .ok ()) := by
  induction segments generalizing v w with
  | nil => cases h
  | cons segment rest ih =>
      cases hcheck : check segment (container segment v) with
      | error fault =>
          rw [assign] at h
          dsimp only at h
          rw [hcheck] at h
          cases h
          exact ⟨[], segment, rest, rfl, hcheck, rfl⟩
      | ok _ =>
          have hadmits := check_container_eq_ok_iff.mp hcheck
          rw [assign_cons_of_admits new hadmits, Prod.mk.injEq] at h
          obtain ⟨rfl, hfails⟩ := h
          obtain ⟨done, stop, more, rfl, hstop, hdone⟩ :=
            ih (Prod.ext rfl hfails)
          refine ⟨segment :: done, stop, more, rfl, ?_, ?_⟩
          · rwa [getD_lookup_cons]
          · rw [getD_lookup_cons]
            exact assign_cons_eq_ok_iff.mpr ⟨hadmits, _, hdone, rfl⟩

/-- A segment that cannot be written meets a container, or it is an index too
far for the array that is made for it. -/
theorem check_container_eq_error
    (h : check segment (container segment v) = .error e) :
    container segment v = v ∨ ∃ i, segment = .index i ∧ greatestGap < i ∧
      e = .invalidPath (.farIndex i 0) ∧ container segment v = .array [] ∧
      v.isObject = false ∧ v.isArray = false := by
  have hmade : segment.emptyContainer = container segment v →
      v.isObject = false →
      v.isArray = false → ∃ i, segment = .index i ∧ greatestGap < i ∧
        e = .invalidPath (.farIndex i 0) ∧ container segment v = .array [] ∧
        v.isObject = false ∧ v.isArray = false := by
    intro hempty hobject harray
    rw [← hempty] at h
    cases segment with
    | key name => cases h
    | index i =>
        rw [Segment.emptyContainer, check, List.length_nil, Nat.sub_zero] at h
        split at h
        · next hgap =>
            cases h
            exact ⟨i, rfl, hgap, rfl, hempty.symm, hobject, harray⟩
        · cases h
  cases v with
  | object fields => exact .inl rfl
  | array items => exact .inl rfl
  | null => exact .inr (hmade rfl rfl rfl)
  | bool b => exact .inr (hmade rfl rfl rfl)
  | number n => exact .inr (hmade rfl rfl rfl)
  | string s => exact .inr (hmade rfl rfl rfl)

/-- The segments come to an index that is too far for an empty array, where
there was no container yet; `w` is `v` with an empty array there, and this is
the error. -/
def LeavesArray (segments : List Segment) (v w : Value) (e : Error) : Prop :=
  ∃ done i rest, segments = done ++ .index i :: rest ∧ greatestGap < i ∧
    e = .invalidPath (.farIndex i 0) ∧
    (∀ part, lookup done v = some part → part.isObject = false ∧
      part.isArray = false) ∧
    assign done (.array []) v = (w, .ok ())

/-- An assignment that fails has changed the value if it leaves an empty array
behind, and only then. -/
theorem ne_of_assign_error_iff (h : assign segments new v = (w, .error e)) :
    w ≠ v ↔ LeavesArray segments v w e := by
  constructor
  · intro hne
    obtain ⟨done, segment, rest, hsplit, hcheck, hdone⟩ := assign_eq_error h
    rcases check_container_eq_error hcheck with
      hsame | ⟨i, rfl, hgap, he, hmade, hkind⟩
    · -- What is a container already is there, and to assign what is there
      -- changes nothing.
      have hpart : lookup done v = some ((lookup done v).getD .null) := by
        cases hlookup : lookup done v with
        | some part => rfl
        | none =>
            have hnull := isNull_container segment ((lookup done v).getD .null)
            rw [hsame, hlookup] at hnull
            cases hnull
      rw [hsame, assign_of_lookup hpart] at hdone
      cases hdone
      exact absurd rfl hne
    · rw [hmade] at hdone
      refine ⟨done, i, rest, hsplit, hgap, he, fun part hpart => ?_, hdone⟩
      rwa [hpart, Option.getD_some] at hkind
  · rintro ⟨done, i, rest, -, -, -, hkind, hdone⟩ rfl
    have harray := (hkind _ (lookup_of_assign hdone)).2
    cases harray

/-! ## Identifiers -/

theorem child?_key_put {name : String} (hne : segment.text ≠ name)
    (new v : Value) :
    child? (.key name) (put segment new v) = child? (.key name) v := by
  cases v with
  | object fields => exact Fields.get?_insert_of_ne hne
  | array items => cases segment <;> rfl
  | null => rfl
  | bool b => rfl
  | number n => rfl
  | string s => rfl

theorem field?_eq_child? (name : String) (v : Value) :
    v.field? name = child? (.key name) v := by
  cases v <;> rfl

/-- Whether an assignment succeeds or not, it leaves the fields alone that its
first segment does not name. -/
theorem field?_assign {name : String} (hne : segment.text ≠ name)
    (rest : List Segment) (new v : Value) :
    (assign (segment :: rest) new v).1.field? name = v.field? name := by
  rw [field?_eq_child?, field?_eq_child?, assign]
  dsimp only
  split
  · exact child?_container _ _ _
  · exact (child?_key_put hne _ _).trans (child?_container _ _ _)

end DocumentStore.Path
