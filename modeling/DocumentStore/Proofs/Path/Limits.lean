import DocumentStore.Proofs.Path.Failure

/-!
# Where an assignment stops, and how far it goes

An assignment walks along its path, through the containers that are there and
through empty ones where there are none. It fails where the walk meets an array
with a key, or with an index too far past the end, and nowhere else
(`set_eq_error_iff`). What the walk meets is said in terms of lookup in the
value as it was: a container that the assignment has made or padded on its way
has nothing where it goes on, and so has the value as it was.

The index decides how much is written, and it may be any word of 64 bits.
`assignChecked` is the assignment with the arithmetic of words, in which a
difference below zero, a sum that is no word, a place past the end and a parent
that is no container each end everything. `assignChecked_eq` says that none of
them happens: the length of an array in memory is far enough from the greatest
word for what the check on the index lets through.
-/

namespace DocumentStore.Path

variable {segment : Segment} {segments done q : List Segment}
  {v w x part : Value} {e : Error}
  {p : Path} {items : List Value} {i : Nat}

/-! ## What stops an assignment -/

/-- A container refuses a segment, with an error: an array refuses keys and
indices that are too far past its end. -/
inductive Refuses : Segment → Value → Error → Prop
  | key (name : String) (items : List Value) :
      Refuses (.key name) (.array items) (.typeMismatch (.fieldInArray name))
  | far (i : Nat) (items : List Value) (hgap : items.length + greatestGap < i) :
      Refuses (.index i) (.array items)
        (.invalidPath (.farIndex i items.length))

/-- After the first segments, the walk from a value meets a container that
refuses the next one. What is no container, or not there, counts as an empty one
for that segment. -/
def Stops (segments : List Segment) (v : Value) (done : List Segment)
    (e : Error) : Prop :=
  ∃ segment rest, segments = done ++ segment :: rest ∧
    Refuses segment (container segment ((lookup done v).getD .null)) e

theorem check_eq_error_iff :
    check segment v = .error e ↔ Refuses segment v e := by
  constructor
  · intro h
    cases v with
    | array items =>
        cases segment with
        | key name =>
            cases h
            exact .key name items
        | index i =>
            rw [check] at h
            split at h
            · next hgap =>
                cases h
                exact .far i items (by omega)
            · cases h
    | _ => cases h
  · rintro (⟨name, items⟩ | ⟨i, items, hgap⟩)
    · rfl
    · rw [check, if_pos (by omega)]

/-- An assignment that succeeds is refused at no segment of its path. -/
theorem not_stops_of_assign {fault : Error}
    (h : assign segments x v = (w, .ok ())) :
    ¬ Stops segments v done fault := by
  rintro ⟨segment, rest, rfl, hrefuses⟩
  induction done generalizing v w with
  | nil =>
      obtain ⟨hadmits, -⟩ := assign_cons_eq_ok_iff.mp h
      have hok := check_container_eq_ok_iff.mpr hadmits
      have herror := check_eq_error_iff.mpr hrefuses
      rw [lookup, Option.getD_some, hok] at herror
      cases herror
  | cons first done ih =>
      obtain ⟨-, part, hpart, -⟩ := assign_cons_eq_ok_iff.mp h
      rw [getD_lookup_cons] at hrefuses
      exact ih hrefuses hpart

theorem Stops.eq_of_length {before : List Segment} {fault : Error}
    (h : Stops segments v done e) (h' : Stops segments v before fault)
    (hlength : done.length = before.length) : e = fault := by
  obtain ⟨segment, rest, hsplit, hrefuses⟩ := h
  obtain ⟨other, more, hsplit', hrefuses'⟩ := h'
  rw [hsplit] at hsplit'
  obtain ⟨rfl, hnext⟩ := List.append_inj hsplit' hlength
  cases hnext
  rw [← check_eq_error_iff] at hrefuses hrefuses'
  exact Except.error.inj (hrefuses.symm.trans hrefuses')

/-- An assignment that fails has come to the first place that stops it. -/
theorem exists_stops_of_set (h : p.set x v = .error e) :
    ∃ done, Stops p.segments v done e ∧
      ∀ before fault, Stops p.segments v before fault →
        done.length ≤ before.length := by
  rw [set] at h
  split at h
  · cases h
  · next left fault hassign =>
      cases h
      obtain ⟨done, segment, rest, hsplit, hcheck, hdone⟩ :=
        assign_eq_error hassign
      refine ⟨done, ⟨segment, rest, hsplit, check_eq_error_iff.mp hcheck⟩, ?_⟩
      rintro before fault ⟨other, more, hsplit', hrefuses⟩
      -- The segments before that place were assigned, so none of them was
      -- refused.
      refine Nat.le_of_not_lt fun hshorter => ?_
      rw [hsplit] at hsplit'
      have hpath : before ++ [other] <+: done ++ segment :: rest := by
        rw [hsplit']
        exact ⟨more, by simp⟩
      have hlength : (before ++ [other]).length ≤ done.length := by
        rw [List.length_append, List.length_singleton]
        omega
      obtain ⟨between, hbetween⟩ :=
        List.prefix_of_prefix_length_le hpath (List.prefix_append _ _) hlength
      refine not_stops_of_assign hdone ⟨other, between, ?_, hrefuses⟩
      rw [← hbetween, List.append_assoc, List.singleton_append]

/-- An assignment fails with what stops it first. -/
theorem set_eq_error_iff : p.set x v = .error e ↔
    ∃ done, Stops p.segments v done e ∧
      ∀ before fault, Stops p.segments v before fault →
        done.length ≤ before.length := by
  constructor
  · exact exists_stops_of_set
  · rintro ⟨done, hstops, hfirst⟩
    cases hset : p.set x v with
    | ok w => exact absurd hstops (not_stops_of_assign (set_eq_ok_iff.mp hset))
    | error fault =>
        obtain ⟨before, hbefore, hfirst'⟩ := exists_stops_of_set hset
        have hlength :=
          Nat.le_antisymm (hfirst _ _ hbefore) (hfirst' _ _ hstops)
        rw [hstops.eq_of_length hbefore hlength]

/-! ## How far arrays grow -/

/-- The length of an array, and zero for everything else. -/
def lengthOf : Option Value → Nat
  | some (.array items) => items.length
  | _ => 0

theorem lengthOf_container (segment : Segment) (v : Value) :
    lengthOf (some (container segment v)) = lengthOf (some v) := by
  cases v with
  | object fields => rfl
  | array items => rfl
  | _ => cases segment <;> rfl

theorem lengthOf_put (h : Admits segment v) (part : Value) :
    lengthOf (some (put segment part v)) ≤
      lengthOf (some v) + (greatestGap + 1) := by
  cases h with
  | object segment fields => exact Nat.zero_le _
  | array i items hgap =>
      rw [put, lengthOf, lengthOf, List.length_set, List.length_append,
        List.length_replicate]
      omega

theorem lengthOf_lookup_null (q : List Segment) :
    lengthOf (lookup q .null) = 0 := by
  cases q <;> rfl

theorem lengthOf_lookup_cons (segment : Segment) (q : List Segment)
    (v : Value) :
    lengthOf (lookup (segment :: q) v) =
      lengthOf (lookup q ((child? segment v).getD .null)) := by
  rw [lookup]
  cases child? segment v with
  | some part => rfl
  | none => exact (lengthOf_lookup_null q).symm

theorem lengthOf_lookup_container (segment : Segment) (q : List Segment)
    (v : Value) :
    lengthOf (lookup q (container segment v)) = lengthOf (lookup q v) := by
  cases q with
  | nil => exact lengthOf_container segment v
  | cons other q => rw [lookup, lookup, child?_container]

/-- Whether an assignment succeeds or not, no array grows by more than the
greatest gap and one place, but for those of the new value. -/
theorem lengthOf_assign
    (h : ¬ ((assign segments x v).2 = .ok () ∧ Within segments q)) :
    lengthOf (lookup q (assign segments x v).1) ≤
      lengthOf (lookup q v) + (greatestGap + 1) := by
  induction segments generalizing v q with
  | nil => exact absurd ⟨rfl, within_nil q⟩ h
  | cons segment rest ih =>
      cases hcheck : check segment (container segment v) with
      | error fault =>
          have hleft : assign (segment :: rest) x v =
              (container segment v, .error fault) := by
            rw [assign, hcheck]
          rw [hleft, lengthOf_lookup_container]
          omega
      | ok _ =>
          have hadmits := check_container_eq_ok_iff.mp hcheck
          rw [assign_cons_of_admits x hadmits] at h ⊢
          cases q with
          | nil =>
              have hput := lengthOf_put hadmits
                (assign rest x ((child? segment v).getD .null)).1
              rwa [lengthOf_container] at hput
          | cons other q =>
              rw [lookup, lookup, ← child?_container other segment v]
              by_cases htext : segment.text = other.text
              · rcases hadmits.child?_put_of_text_eq
                  (assign rest x ((child? segment v).getD .null)).1 htext with
                  ⟨hsome, hsame⟩ | ⟨hnone, -⟩
                · rw [hsome, hsame, child?_container,
                    Option.bind_some, ← lookup, lengthOf_lookup_cons]
                  exact ih fun hin =>
                    h ⟨hin.1, within_cons_iff.mpr ⟨htext, hin.2⟩⟩
                · rw [hnone]
                  exact Nat.zero_le _
              · rcases hadmits.child?_put_of_text_ne
                  (assign rest x ((child? segment v).getD .null)).1 htext with
                  hsame | ⟨-, hnull⟩
                · rw [hsame]
                  omega
                · rw [hnull, Option.bind_some, lengthOf_lookup_null]
                  exact Nat.zero_le _

/-! ## Assignment in words -/

/-- What ends everything where numbers are words of 64 bits. -/
inductive Breach where
  | underflow
  | overflow
  | outOfBounds
  | noContainer
deriving DecidableEq

def wordSub (a b : Nat) : Except Breach Nat :=
  if b ≤ a then .ok (a - b) else .error .underflow

def wordSucc (a : Nat) : Except Breach Nat :=
  if a + 1 < Segment.indexLimit then .ok (a + 1) else .error .overflow

/-- An array cut or padded with nulls to a length. -/
def resize (length : Nat) (items : List Value) : List Value :=
  items.take length ++ List.replicate (length - items.length) .null

/-- An array with a place for an index, unless that is too far past the end. -/
def slot (i : Nat) (items : List Value) :
    Except Breach (Result (List Value)) := do
  if items.length ≤ i then
    let gap ← wordSub i items.length
    if greatestGap < gap then
      .ok (.error (.invalidPath (.farIndex i items.length)))
    else
      let length ← wordSucc i
      .ok (.ok (resize length items))
  else
    .ok (.ok items)

def itemAt (i : Nat) (items : List Value) : Except Breach Value :=
  match items[i]? with
  | some v => .ok v
  | none => .error .outOfBounds

/-- Assign at segments: the value afterwards and the error that stopped it, or
the breach that ended it. -/
def assignChecked :
    List Segment → Value → Value → Except Breach (Value × Result Unit)
  | [], new, _ => .ok (new, .ok ())
  | segment :: rest, new, old =>
      match container segment old with
      | .object fields => do
          let part := (Fields.get? segment.text fields).getD .null
          let (part, outcome) ← assignChecked rest new part
          .ok (.object (Fields.insert segment.text part fields), outcome)
      | .array items =>
          match segment with
          | .key name =>
              .ok (.array items, .error (.typeMismatch (.fieldInArray name)))
          | .index i => do
              match ← slot i items with
              | .error e => .ok (.array items, .error e)
              | .ok items =>
                  let part ← itemAt i items
                  let (part, outcome) ← assignChecked rest new part
                  .ok (.array (items.set i part), outcome)
      | _ => .error .noContainer

/-- The greatest length of an array in memory, which has fewer than `2 ^ 63`
bytes. -/
def greatestLength : Nat := 0x7fffffffffffffff

/-- All arrays of a value are in memory. -/
def InMemory (v : Value) : Prop := ∀ q, lengthOf (lookup q v) ≤ greatestLength

theorem InMemory.child (h : InMemory v) (segment : Segment) :
    InMemory ((child? segment v).getD .null) := by
  intro q
  rw [← lengthOf_lookup_cons]
  exact h (segment :: q)

theorem inMemory_null : InMemory .null := by
  intro q
  rw [lengthOf_lookup_null]
  exact Nat.zero_le _

theorem inMemory_of_child (hv : lengthOf (some v) ≤ greatestLength)
    (h : ∀ segment, InMemory ((child? segment v).getD .null)) : InMemory v := by
  intro q
  cases q with
  | nil => exact hv
  | cons segment q =>
      rw [lengthOf_lookup_cons]
      exact h segment q

theorem resize_of_le (h : items.length ≤ i) :
    resize (i + 1) items =
      items ++ List.replicate (i + 1 - items.length) .null := by
  rw [resize, List.take_of_length_le (Nat.le_succ_of_le h)]

/-- In memory, the arithmetic of words finds the place for an index, or the gap
before it. -/
theorem slot_eq (i : Nat) (hlength : items.length ≤ greatestLength) :
    slot i items = .ok
      (if i - items.length >
          greatestGap then .error (.invalidPath (.farIndex i items.length))
        else .ok (items ++ List.replicate (i + 1 - items.length) .null)) := by
  have hlimit : Segment.indexLimit = 0x10000000000000000 := rfl
  have hgreatest : greatestLength = 0x7fffffffffffffff := rfl
  have hgap : greatestGap = 10000 := rfl
  rw [slot]
  split
  · next hpast =>
      rw [wordSub, if_pos hpast]
      show (if greatestGap < i - items.length then _ else _) = _
      split
      · rfl
      · next hnear =>
          rw [wordSucc, if_pos (by omega), ← resize_of_le hpast]
          rfl
  · next hinside =>
      have hnone : i + 1 - items.length = 0 := by omega
      rw [if_neg (by omega), hnone, List.replicate_zero, List.append_nil]

theorem itemAt_padded (items : List Value) (i : Nat) :
    itemAt i (items ++ List.replicate (i + 1 - items.length) .null) =
      .ok (items[i]?.getD .null) := by
  rw [itemAt, List.getElem?_append]
  split
  · next v hv =>
      split at hv
      · rw [hv, Option.getD_some]
      · next hpast =>
          rw [List.getElem?_eq_none (Nat.not_lt.mp hpast), Option.getD_none]
          rw [List.getElem?_replicate] at hv
          split at hv
          · cases hv
            rfl
          · cases hv
  · next hnone =>
      split at hnone
      · next hinside =>
          rw [List.getElem?_eq_none_iff] at hnone
          omega
      · rw [List.getElem?_replicate, if_pos (by omega)] at hnone
        cases hnone

/-- No assignment to a value in memory ends in a breach. -/
theorem assignChecked_eq (segments : List Segment) (x : Value)
    (hv : InMemory v) :
    assignChecked segments x v = .ok (assign segments x v) := by
  induction segments generalizing v with
  | nil => rfl
  | cons segment rest ih =>
      have hpart := ih (hv.child segment)
      have hroom := hv []
      rw [← child?_container segment segment v] at hpart
      rw [lookup, ← lengthOf_container segment] at hroom
      rw [assignChecked, assign]
      rcases container_cases segment v with ⟨fields, hfields⟩ | ⟨items, hitems⟩
      · rw [hfields] at hpart ⊢
        dsimp only
        rw [show (Fields.get? segment.text fields).getD .null =
          (child? segment (.object fields)).getD .null from rfl, hpart]
        rfl
      · rw [hitems] at hpart hroom ⊢
        cases segment with
        | key name => rfl
        | index i =>
            dsimp only
            rw [slot_eq i hroom, check]
            split
            · rfl
            · show (itemAt i (items ++ _) >>= _) = _
              rw [itemAt_padded]
              show (assignChecked rest x
                  ((child? (.index i) (.array items)).getD .null) >>= _) = _
              rw [hpart]
              rfl

/-! ## The limits together -/

/-- An assignment fails if and only if the walk along its path is stopped, and
then with what stops it first: an array that meets a key, or an index too far
past its end. What it leaves, whether it fails or not, has no array outside of
what was assigned that has grown by more than the greatest gap and one place.
For a value in memory, no step of it leaves the words of 64 bits or the bounds
of an array, and none is without a container. -/
theorem set_stays_in_limits (p : Path) (v x : Value) :
    ((∃ e, p.set x v = .error e) ↔ ∃ done e, Stops p.segments v done e) ∧
      (∀ e, p.set x v = .error e ↔ ∃ done, Stops p.segments v done e ∧
        ∀ before fault, Stops p.segments v before fault →
          done.length ≤ before.length) ∧
      (∀ q, ¬ ((∃ w, p.set x v = .ok w) ∧ Within p.segments q) →
        lengthOf (lookup q (assign p.segments x v).1) ≤
          lengthOf (lookup q v) + (greatestGap + 1)) ∧
      (InMemory v → assignChecked p.segments x v =
        .ok (assign p.segments x v)) := by
  refine ⟨⟨?_, ?_⟩, fun e => set_eq_error_iff, fun q hq => lengthOf_assign ?_,
    assignChecked_eq p.segments x⟩
  · rintro ⟨e, hset⟩
    obtain ⟨done, hstops, -⟩ := exists_stops_of_set hset
    exact ⟨done, e, hstops⟩
  · rintro ⟨done, e, hstops⟩
    cases hset : p.set x v with
    | ok w => exact absurd hstops (not_stops_of_assign (set_eq_ok_iff.mp hset))
    | error fault => exact ⟨fault, rfl⟩
  · rwa [exists_set_eq_ok_iff] at hq

/-- A table with one row. -/
def oneRow : Value := .object [("rows", .array [.null])]

/-- The row whose index is the greatest word. -/
def lastRow : Path :=
  ⟨[.key "rows", .index 0xffffffffffffffff], List.cons_ne_nil _ _⟩

theorem set_stays_in_limits_lastRow :
    Stops lastRow.segments oneRow [.key "rows"]
      (.invalidPath (.farIndex 0xffffffffffffffff 1)) ∧
      (∃ e, lastRow.set .null oneRow = .error e) ∧
      ¬ ((∃ w, lastRow.set .null oneRow = .ok w) ∧
        Within lastRow.segments [.key "rows"]) ∧
      lengthOf (lookup [.key "rows"] (assign lastRow.segments .null oneRow).1) ≤
        lengthOf (lookup [.key "rows"] oneRow) + (greatestGap + 1) ∧
      InMemory oneRow ∧
      assignChecked lastRow.segments .null oneRow =
        .ok (assign lastRow.segments .null oneRow) := by
  obtain ⟨hfails, -, hgrowth, hchecked⟩ :=
    set_stays_in_limits lastRow oneRow .null
  have hstops : Stops lastRow.segments oneRow [.key "rows"]
      (.invalidPath (.farIndex 0xffffffffffffffff 1)) :=
    ⟨.index 0xffffffffffffffff, [], rfl,
      .far 0xffffffffffffffff [.null] (by decide)⟩
  have houtside : ¬ Within lastRow.segments [.key "rows"] := by decide +kernel
  have hrows : ∀ segment,
      InMemory ((child? segment (.array [.null])).getD .null) := by
    intro segment
    cases segment with
    | key name => exact inMemory_null
    | index i => cases i <;> exact inMemory_null
  have hmemory : InMemory oneRow := by
    refine inMemory_of_child (by decide) fun segment => ?_
    rw [oneRow, child?, Fields.get?]
    split
    · exact inMemory_of_child (by decide) hrows
    · exact inMemory_null
  exact ⟨hstops, hfails.mpr ⟨_, _, hstops⟩, fun h => houtside h.2,
    hgrowth _ fun h => houtside h.2, hmemory, hchecked hmemory⟩

end DocumentStore.Path
