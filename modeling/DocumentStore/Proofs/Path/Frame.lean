import DocumentStore.Proofs.Path.Lens

/-!
# What an assignment leaves as it was

Two paths diverge where the texts of their segments first differ. An assignment
at one of them does not show at the other, whatever it makes, replaces or pads
on its way, with one exception: padding an array puts nulls where nothing was.

The texts are what has to differ, since an index and a key with the same text
are one field of an object. In an array they are not the same: a key leads
nowhere there. So where two segments have one text, either both lead to the same
part or one of them leads nowhere, before the assignment and after it.
`child?_put_of_text_ne` and `child?_put_of_text_eq` say what becomes of one step
in the two cases, and the laws for paths follow by induction along the path that
is assigned.
-/

namespace DocumentStore.Path

variable {segment other : Segment} {p q : List Segment} {v w x part : Value}

/-! ## Diverging paths -/

/-- At some place both paths have a segment, and the texts of the two differ,
while all before that place are the same. -/
def Diverge (p q : List Segment) : Prop :=
  ∃ (i : Nat) (a b : Segment),
    p[i]? = some a ∧ q[i]? = some b ∧ a.text ≠ b.text ∧
    ∀ j < i, (p[j]?).map Segment.text = (q[j]?).map Segment.text

theorem diverge_cons_iff : Diverge (segment :: p) (other :: q) ↔
    segment.text ≠ other.text ∨ (segment.text = other.text ∧ Diverge p q) := by
  refine ⟨?_, ?_⟩
  · rintro ⟨i, a, b, ha, hb, hne, hbefore⟩
    cases i with
    | zero =>
        cases ha
        cases hb
        exact .inl hne
    | succ i =>
        have hfirst := hbefore 0 (Nat.succ_pos i)
        refine .inr ⟨Option.some.inj hfirst, i, a, b, ha, hb, hne, ?_⟩
        intro j hj
        exact hbefore (j + 1) (Nat.succ_lt_succ hj)
  · rintro (hne | ⟨hfirst, i, a, b, ha, hb, hne, hbefore⟩)
    · exact ⟨0, segment, other, rfl, rfl, hne,
        fun j hj => absurd hj (Nat.not_lt_zero j)⟩
    · refine ⟨i + 1, a, b, ha, hb, hne, ?_⟩
      intro j hj
      cases j with
      | zero => exact congrArg some hfirst
      | succ j => exact hbefore j (Nat.lt_of_succ_lt_succ hj)

theorem not_diverge_nil_left (q : List Segment) : ¬ Diverge [] q := by
  rintro ⟨i, a, b, ha, -⟩
  cases ha

theorem not_diverge_nil_right (p : List Segment) : ¬ Diverge p [] := by
  rintro ⟨i, a, b, -, hb, -⟩
  cases hb

/-- Decided segment by segment. -/
def decidableDiverge : (p q : List Segment) → Decidable (Diverge p q)
  | [], q => isFalse (not_diverge_nil_left q)
  | _ :: _, [] => isFalse (not_diverge_nil_right _)
  | segment :: p, other :: q =>
      have := decidableDiverge p q
      decidable_of_iff (segment.text ≠ other.text ∨
          (segment.text = other.text ∧ Diverge p q))
        diverge_cons_iff.symm

instance : DecidableRel Diverge := decidableDiverge

theorem eq_of_text_index {i j : Nat}
    (h : (Segment.index i).text = (Segment.index j).text) :
    i = j := by
  have hdigits : Nat.toDigits 10 i = Nat.toDigits 10 j :=
    String.ofList_injective h
  calc
    i = Nat.ofDigitChars 10 (Nat.toDigits 10 i) 0 :=
      Nat.ofDigitChars_ten_toDigits.symm
    _ = Nat.ofDigitChars 10 (Nat.toDigits 10 j) 0 := by rw [hdigits]
    _ = j := Nat.ofDigitChars_ten_toDigits

/-! ## One segment -/

/-- What is found is found as before, or it is null where nothing was. -/
def Kept (before after : Option Value) : Prop :=
  after = before ∨ (before = none ∧ after = some .null)

theorem Admits.child?_put_of_text_ne (h : Admits segment v) (part : Value)
    (hne : segment.text ≠ other.text) :
    Kept (child? other v) (child? other (Path.put segment part v)) := by
  cases h with
  | object segment fields => exact .inl (Fields.get?_insert_of_ne hne)
  | array i items hgap =>
      cases other with
      | key name => exact .inl rfl
      | index j =>
          have hij : i ≠ j := by
            rintro rfl
            exact hne rfl
          have hput : child? (.index j)
              (Path.put (.index i) part (.array items)) = _ :=
            getElem?_pad_set items i j part
          rw [if_neg hij] at hput
          rw [hput]
          split
          · exact .inl rfl
          · next hlength =>
              have hnone : child? (.index j) (.array items) = none :=
                List.getElem?_eq_none (Nat.not_lt.mp hlength)
              split
              · exact .inr ⟨hnone, rfl⟩
              · exact .inl hnone.symm

/-- Where the texts are the same both segments lead to the same part, unless the
other one is a key at an array. -/
theorem Admits.child?_put_of_text_eq (h : Admits segment v) (part : Value)
    (htext : segment.text = other.text) :
    (child? other (Path.put segment part v) = some part ∧
        child? other v = child? segment v) ∨
      (child? other (Path.put segment part v) = none ∧
        child? other v = none) := by
  cases h with
  | object segment fields =>
      refine .inl ⟨?_, ?_⟩
      · show Fields.get? other.text (Fields.insert segment.text part fields) =
            some part
        rw [← htext, Fields.get?_insert_self]
      · show Fields.get? other.text fields = Fields.get? segment.text fields
        rw [htext]
  | array i items hgap =>
      cases other with
      | key name => exact .inr ⟨rfl, rfl⟩
      | index j =>
          cases eq_of_text_index htext
          exact .inl ⟨(Admits.array i items hgap).child?_put part, rfl⟩

/-! ## Along a path -/

theorem lookup_null (hne : q ≠ []) : lookup q .null = none := by
  obtain ⟨first, rest, rfl⟩ := List.exists_cons_of_ne_nil hne
  rfl

theorem kept_of_diverge (h : assign p x v = (w, .ok ()))
    (hdiverge : Diverge p q) :
    Kept (lookup q v) (lookup q w) := by
  induction p generalizing v w q with
  | nil => exact absurd hdiverge (not_diverge_nil_left q)
  | cons segment rest ih =>
      cases q with
      | nil => exact absurd hdiverge (not_diverge_nil_right _)
      | cons other more =>
          obtain ⟨hadmits, part, hpart, rfl⟩ := assign_cons_eq_ok_iff.mp h
          rw [lookup, lookup, ← child?_container other segment v]
          rcases diverge_cons_iff.mp hdiverge with hne | ⟨htext, hrest⟩
          · rcases hadmits.child?_put_of_text_ne part hne with
              hsame | ⟨hnone, hnull⟩
            · rw [hsame]
              exact .inl rfl
            · -- Padding put null here, so a path that goes on still leads
              -- nowhere.
              rw [hnone, hnull, Option.bind_none, Option.bind_some]
              cases more with
              | nil => exact .inr ⟨rfl, rfl⟩
              | cons next more => exact .inl rfl
          · have hmore : more ≠ [] := by
              rintro rfl
              exact not_diverge_nil_right _ hrest
            rcases hadmits.child?_put_of_text_eq part htext with
              ⟨hsome, hsame⟩ | ⟨hnone, hbefore⟩
            · rw [hsome, hsame, child?_container, Option.bind_some]
              have hkept := ih hpart hrest
              -- Where there is no part yet, the rest is assigned to null, in
              -- which nothing is found.
              cases hchild : child? segment v with
              | none =>
                  rw [hchild, Option.getD_none, lookup_null hmore] at hkept
                  rwa [Option.bind_none]
              | some before =>
                  rw [hchild, Option.getD_some] at hkept
                  rwa [Option.bind_some]
            · rw [hnone, hbefore]
              exact .inl rfl

/-- Where something is, an assignment pads nothing, so it does not show
elsewhere. -/
theorem lookup_of_diverge (hpart : lookup p v = some part)
    (h : assign p x v = (w, .ok ())) (hdiverge : Diverge p q) :
    lookup q w = lookup q v := by
  rcases kept_of_diverge h hdiverge with hsame | ⟨hnone, hnull⟩
  · exact hsame
  · -- To assign again what was there leads back, and that would turn null into
    -- nothing.
    have hback : assign p part w = (v, .ok ()) := by
      rw [assign_assign part h, assign_of_lookup hpart]
    rcases kept_of_diverge hback hdiverge with hsame | ⟨hnone', -⟩
    · exact hsame.symm
    · rw [hnull] at hnone'
      cases hnone'

/-! ## Within what is written -/

/-- Segments lead to what is written at a path or into it. -/
def Within (p segments : List Segment) : Prop :=
  p.map Segment.text <+: segments.map Segment.text

instance : DecidableRel Within := fun p segments =>
  inferInstanceAs (Decidable (p.map Segment.text <+: segments.map Segment.text))

theorem within_cons_iff : Within (segment :: p) (other :: q) ↔
    segment.text = other.text ∧ Within p q := by
  rw [Within, List.map_cons, List.map_cons, List.cons_prefix_cons]
  exact Iff.rfl

theorem within_nil (q : List Segment) : Within [] q := List.nil_prefix

/-- Paths diverge if neither leads to what is written at the other. -/
theorem diverge_of_not_within (h : ¬ Within p q) (h' : ¬ Within q p) :
    Diverge p q := by
  induction p generalizing q with
  | nil => exact absurd (within_nil q) h
  | cons segment rest ih =>
      cases q with
      | nil => exact absurd (within_nil _) h'
      | cons other more =>
          rw [within_cons_iff] at h h'
          by_cases htext : segment.text = other.text
          · have hdiverge := ih (fun hin => h ⟨htext, hin⟩) fun hin =>
              h' ⟨htext.symm, hin⟩
            exact diverge_cons_iff.mpr (.inr ⟨htext, hdiverge⟩)
          · exact diverge_cons_iff.mpr (.inl htext)

/-- What is found within what is written was found in what was there before, and
now has to be found in what is there instead. -/
theorem lookup_within (h : assign p x v = (w, .ok ())) (hin : Within p q)
    (hq : lookup q v = some part) :
    ∃ before more, lookup p v = some before ∧ lookup more before = some part ∧
      lookup q w = lookup more x := by
  induction p generalizing v w q with
  | nil =>
      cases h
      exact ⟨v, q, rfl, hq, rfl⟩
  | cons segment rest ih =>
      cases q with
      | nil => exact absurd (List.prefix_nil.mp hin) (List.cons_ne_nil _ _)
      | cons other others =>
          obtain ⟨htext, hin⟩ := within_cons_iff.mp hin
          obtain ⟨hadmits, new, hnew, rfl⟩ := assign_cons_eq_ok_iff.mp h
          obtain ⟨child, hchild, hq⟩ := Option.bind_eq_some_iff.mp hq
          rw [← child?_container other segment v] at hchild
          rcases hadmits.child?_put_of_text_eq new htext with
            ⟨hsome, hsame⟩ | ⟨-, hnone⟩
          · rw [hsame, child?_container] at hchild
            rw [hchild, Option.getD_some] at hnew
            obtain ⟨before, more, hbefore, hmore, hafter⟩ := ih hnew hin hq
            refine ⟨before, more, ?_, hmore, ?_⟩
            · rw [lookup, hchild, Option.bind_some, hbefore]
            · rw [lookup, hsome, Option.bind_some, hafter]
          · rw [hnone] at hchild
            cases hchild

/-! ## The order of fields -/

/-- An object that is not written itself keeps its fields in their order, and
those that are new come after them. -/
theorem keys_of_assign {fields : List (String × Value)}
    (h : assign p x v = (w, .ok ())) (houtside : ¬ Within p q)
    (hbefore : lookup q v = some (.object fields)) :
    ∃ after, lookup q w = some (.object after) ∧
      Fields.keys fields <+: Fields.keys after := by
  induction p generalizing v w q with
  | nil => exact absurd (List.nil_prefix) houtside
  | cons segment rest ih =>
      obtain ⟨hadmits, part, hpart, rfl⟩ := assign_cons_eq_ok_iff.mp h
      cases q with
      | nil =>
          cases hbefore
          exact ⟨_, rfl, Fields.keys_prefix_insert _ _ _⟩
      | cons other more =>
          obtain ⟨before, hchild, hmore⟩ := Option.bind_eq_some_iff.mp hbefore
          rw [← child?_container other segment v] at hchild
          rw [lookup]
          by_cases htext : segment.text = other.text
          · have hrest : ¬ Within rest more :=
              fun hin => houtside (within_cons_iff.mpr ⟨htext, hin⟩)
            rcases hadmits.child?_put_of_text_eq part htext with
              ⟨hsome, hsame⟩ | ⟨hnone, hno⟩
            · rw [hsame, child?_container] at hchild
              rw [hchild, Option.getD_some] at hpart
              rw [hsome, Option.bind_some]
              exact ih hpart hrest hmore
            · rw [hno] at hchild
              cases hchild
          · rcases hadmits.child?_put_of_text_ne part htext with
              hsame | ⟨hnone, hnull⟩
            · rw [hsame, hchild, Option.bind_some]
              exact ⟨fields, hmore, List.prefix_refl _⟩
            · rw [hnone] at hchild
              cases hchild

/-! ## The law -/

/-- An assignment that succeeds leaves what every diverging path leads to as it
was, except that null may stand where nothing was. Every object that it does not
replace keeps its fields in their order, with new ones after them. -/
theorem set_keeps_rest {p : Path} (hset : p.set x v = .ok w) :
    (∀ q : Path, Diverge p.segments q.segments →
      q.get w = q.get v ∨ (q.get v = none ∧ q.get w = some .null)) ∧
    ∀ segments fields, ¬ Within p.segments segments →
      lookup segments v = some (.object fields) →
      ∃ after, lookup segments w = some (.object after) ∧
        Fields.keys fields <+: Fields.keys after := by
  have hassign := set_eq_ok_iff.mp hset
  exact ⟨fun q hdiverge => kept_of_diverge hassign hdiverge,
    fun segments fields houtside hbefore =>
      keys_of_assign hassign houtside hbefore⟩

def thirdTag : Path := ⟨[.key "tags", .index 2], List.cons_ne_nil _ _⟩

/-- A document with a first and a third tag. -/
def gapped : Value :=
  .object [("tags", .array [.string "a", .null, .string "c"])]

/-- The place between the two tags holds null, the first tag is as it was, and
the document still begins with its tags. -/
theorem set_keeps_rest_thirdTag :
    thirdTag.set (.string "c") (tagged "a") = .ok gapped ∧
      firstTag.get gapped = firstTag.get (tagged "a") ∧
      ∃ after, gapped = .object after ∧ ["tags"] <+: Fields.keys after := by
  have hset : thirdTag.set (.string "c") (tagged "a") = .ok gapped := rfl
  have hdiverge : Diverge thirdTag.segments firstTag.segments := by
    refine diverge_cons_iff.mpr (.inr ⟨rfl, diverge_cons_iff.mpr (.inl ?_)⟩)
    intro htext
    exact absurd (eq_of_text_index htext) (by decide)
  have hroot : ¬ Within thirdTag.segments [] := by
    simp [Within, thirdTag]
  obtain ⟨hothers, hobjects⟩ := set_keeps_rest hset
  obtain ⟨after, hafter, hkeys⟩ := hobjects [] _ hroot rfl
  refine ⟨hset, ?_, after, Option.some.inj hafter, hkeys⟩
  rcases hothers firstTag hdiverge with hsame | ⟨hnone, -⟩
  · exact hsame
  · cases hnone

end DocumentStore.Path
