import DocumentStore.Proofs.Path.Lens
import DocumentStore.Proofs.Update.Fields

/-!
# Several values for one array

Operators on arrays read the array at a path, make another one of it and write
that one back (`amend`). What is written last leaves no trace of what was
written there before, and whether it can be written does not depend on what it
is. So to amend an array twice is to amend it once, by the one change and then
the other (`amend_amend`), and values that are added or taken away one after
another are as one operand that lists them (`listed_eq_inTurn`).
-/

namespace DocumentStore.Update

variable {now : Instant} {op : Operator} {path : String} {field : Path}
  {operand doc doc' : Value}
  {values : List Value} {found : Option (List Value)}

/-! ## Changes of an array -/

/-- Write an array at a path, if there is one to write. -/
def writeArray (field : Path) (doc : Value) : Option (List Value) → Result Value
  | some new => field.set (.array new) doc
  | none => .ok doc

/-- Change the array at a path, which may be missing. -/
def amend (op : Operator) (path : String)
    (change : Option (List Value) → Option (List Value)) (doc : Value) :
    Result Value := do
  let field ← Path.parse path
  let found ← existingArray op path (field.get doc)
  writeArray field doc (change found)

theorem amend_eq {change : Option (List Value) → Option (List Value)}
    (hpath : Path.parse path = .ok field)
    (hfound : existingArray op path (field.get doc) = .ok found) :
    amend op path change doc = writeArray field doc (change found) := by
  rw [amend, hpath]
  show (existingArray op path (field.get doc) >>= _) = _
  rw [hfound]
  rfl

/-- There is an array to change, or a place for one, or it fails whatever the
change is. -/
theorem amend_cases (op : Operator) (path : String) (doc : Value) :
    (∃ e, ∀ change, amend op path change doc = .error e) ∨
      ∃ field found, Path.parse path = .ok field ∧
        existingArray op path (field.get doc) = .ok found ∧
        ∀ change, amend op path change doc =
          writeArray field doc (change found) := by
  cases hpath : Path.parse path with
  | error e =>
      refine .inl ⟨e, fun change => ?_⟩
      rw [amend, hpath]
      rfl
  | ok field =>
      cases hfound : existingArray op path (field.get doc) with
      | error e =>
          refine .inl ⟨e, fun change => ?_⟩
          rw [amend, hpath]
          show (existingArray op path (field.get doc) >>= _) = _
          rw [hfound]
          rfl
      | ok found =>
          exact .inr ⟨field, found, rfl, hfound,
            fun change => amend_eq hpath hfound⟩

/-- One change of an array and then another one. -/
def andThen (f g : Option (List Value) → Option (List Value))
    (found : Option (List Value)) : Option (List Value) :=
  match f found with
  | some new => some ((g (some new)).getD new)
  | none => g found

theorem amend_amend (f g : Option (List Value) → Option (List Value))
    (doc : Value) :
    (amend op path f doc >>= amend op path g) =
      amend op path (andThen f g) doc := by
  rcases amend_cases op path doc with
    ⟨e, hfails⟩ | ⟨field, found, hpath, hfound, heq⟩
  · rw [hfails, hfails]
    rfl
  · rw [heq, heq, andThen]
    cases f found with
    | none => exact amend_eq hpath hfound
    | some new =>
        dsimp only
        rw [writeArray, writeArray]
        cases hset : field.set (.array new) doc with
        | error e => exact (Path.set_eq_error _ hset).symm
        | ok changed =>
            have hassign := Path.set_eq_ok_iff.mp hset
            have hget : field.get changed = some (.array new) :=
              Path.lookup_of_assign hassign
            have hnew : existingArray op path (field.get changed) =
                .ok (some new) := by
              rw [hget, existingArray_some_eq_ok]
              exact ⟨new, rfl, rfl⟩
            show amend op path g changed = _
            rw [amend_eq hpath hnew]
            cases g (some new) with
            | none => exact hset.symm
            | some newer =>
                rw [writeArray, Option.getD_some, Path.set, Path.set,
                  Path.assign_assign _ hassign]

theorem isObject_amend {change : Option (List Value) → Option (List Value)}
    (h : amend op path change doc = .ok doc') (hdoc : doc.isObject = true) :
    doc'.isObject = true := by
  rcases amend_cases op path doc with ⟨e, hfails⟩ | ⟨field, found, -, -, heq⟩
  · rw [hfails] at h
    cases h
  · rw [heq] at h
    cases hchange : change found with
    | none =>
        rw [hchange] at h
        cases h
        exact hdoc
    | some new =>
        rw [hchange] at h
        exact Path.isObject_set hdoc h

/-- The operator shows in the message at most. -/
theorem kind_amend (op op' : Operator) (path : String)
    (change : Option (List Value) → Option (List Value)) (doc : Value) :
    (amend op path change doc).mapError Error.kind =
      (amend op' path change doc).mapError Error.kind := by
  unfold amend
  cases Path.parse path with
  | error e => rfl
  | ok field =>
      simp only [bind, Except.bind]
      cases field.get doc with
      | none => rfl
      | some v => cases v <;> rfl

/-! ## Operators that change an array -/

/-- An operator whose new value comes from the array that is there, and from
nothing else. -/
theorem applyField_eq_amend {change : Option (List Value) → Option (List Value)}
    (hunset : op ≠ .unset) (hrename : op ≠ .rename)
    (h : ∀ current, newValue now op path operand current =
      (fun found => (change found).map Value.array) <$>
        existingArray op path current)
    (doc : Value) :
    applyField now op path operand doc = amend op path change doc := by
  rw [applyField_of_newValue hunset hrename, amend]
  cases Path.parse path with
  | error e => rfl
  | ok field =>
      show (newValue now op path operand (field.get doc) >>= _) =
        (existingArray op path (field.get doc) >>= _)
      rw [h]
      cases existingArray op path (field.get doc) with
      | error e => rfl
      | ok found =>
          show (Except.ok ((change found).map Value.array) >>= _) =
            writeArray field doc (change found)
          cases change found <;> rfl

theorem applyField_push (operand doc : Value) :
    applyField now .push path operand doc =
    amend .push path
      (fun found => some (push (found.getD []) operand)) doc := by
  refine applyField_eq_amend (by decide) (by decide) (fun current => ?_) doc
  rw [newValue]
  cases existingArray .push path current <;> rfl

theorem applyField_addToSet (operand doc : Value) :
    applyField now .addToSet path operand doc =
    amend .addToSet path
      (fun found => some (addToSet (found.getD []) operand)) doc := by
  refine applyField_eq_amend (by decide) (by decide) (fun current => ?_) doc
  rw [newValue]
  cases existingArray .addToSet path current <;> rfl

theorem applyField_pullAll (removals : List Value) (doc : Value) :
    applyField now .pullAll path (.array removals) doc =
      amend .pullAll path (Option.map (pullAll removals)) doc := by
  refine applyField_eq_amend (by decide) (by decide) (fun current => ?_) doc
  rw [newValue]
  cases existingArray .pullAll path current with
  | error e => rfl
  | ok found => cases found <;> rfl

/-- What is no filter and asks for no fields takes away what is alike. -/
theorem isPulled_eq (h : operand.isPlainObject = false) (item : Value) :
    isPulled operand item = .ok (item.alike operand) := by
  unfold isPulled
  split
  · next fields =>
      have hdate : Value.isDate (.object fields) = true := by
        rw [Value.isPlainObject, Value.isObject, Bool.true_and,
          Bool.not_eq_false'] at h
        exact h
      rw [if_pos hdate]
  · rfl

theorem pull_eq (h : operand.isPlainObject = false) (items : List Value) :
    pull operand items = .ok (pullAll [operand] items) := by
  induction items with
  | nil => rfl
  | cons item rest ih =>
      rw [pull, isPulled_eq h, ih, pullAll, pullAll, List.filter_cons]
      simp only [bind, Except.bind]
      cases halike : item.alike operand <;> simp [halike]

theorem applyField_pull (h : operand.isPlainObject = false) (doc : Value) :
    applyField now .pull path operand doc =
      amend .pull path (Option.map (pullAll [operand])) doc := by
  refine applyField_eq_amend (by decide) (by decide) (fun current => ?_) doc
  rw [newValue]
  cases existingArray .pull path current with
  | error e => rfl
  | ok found =>
      cases found with
      | none => rfl
      | some items =>
          show (pull operand items >>= fun kept =>
              Except.ok (some (Value.array kept))) = _
          rw [pull_eq h]
          rfl

/-! ## One value after another -/

/-- An operand that lists several values to add. -/
def each (values : List Value) : Value := .object [("$each", .array values)]

/-- An update of one field, done with one value after another. -/
def inTurn (now : Instant) (op : Operator) (path : String) (values : List Value)
    (doc : Value) : Result Value :=
  values.foldlM (fun doc v => apply now (ofOperator op [(path, v)]) doc) doc

theorem apply_of_not_isObject (hdoc : doc.isObject = false) (spec : Value) :
    apply now spec doc = .error (.typeMismatch .updateTarget) := by
  unfold apply
  rw [hdoc]
  rfl

/-- If each value changes the array as a list does that holds it alone, and
lists change it in turn as one list does, then all values in turn change it as
the list of them. -/
theorem inTurn_eq_amend
    (change : List Value → Option (List Value) → Option (List Value))
    (hdoc : doc.isObject = true) (hne : values ≠ [])
    (hone : ∀ v ∈ values, ∀ doc, applyField now op path v doc =
      amend op path (change [v]) doc)
    (hcons : ∀ v rest, andThen (change [v]) (change rest) =
      change (v :: rest)) :
    inTurn now op path values doc = amend op path (change values) doc := by
  induction values generalizing doc with
  | nil => exact absurd rfl hne
  | cons v rest ih =>
      obtain ⟨hfirst, hothers⟩ := List.forall_mem_cons.mp hone
      rw [inTurn, List.foldlM_cons, apply_field hdoc, hfirst]
      cases rest with
      | nil => exact bind_pure _
      | cons w others =>
          rw [← hcons v (w :: others), ← amend_amend]
          cases hchanged : amend op path (change [v]) doc with
          | error e => rfl
          | ok changed =>
              exact ih (isObject_amend hchanged hdoc)
                (List.cons_ne_nil w others) hothers

theorem inTurn_of_not_isObject (hdoc : doc.isObject = false)
    (hne : values ≠ []) :
    inTurn now op path values doc = .error (.typeMismatch .updateTarget) := by
  obtain ⟨v, rest, rfl⟩ := List.exists_cons_of_ne_nil hne
  rw [inTurn, List.foldlM_cons, apply_of_not_isObject hdoc]
  rfl

theorem addedItems_of_no_each {v : Value} (h : v.field? "$each" = none) :
    addedItems v = [v] := by
  rw [addedItems, h]

theorem push_each (hdoc : doc.isObject = true) (hne : values ≠ [])
    (hvalues : ∀ v ∈ values, v.field? "$each" = none) :
    apply now (ofOperator .push [(path, each values)]) doc =
      inTurn now .push path values doc := by
  rw [apply_field hdoc, applyField_push]
  refine (inTurn_eq_amend (fun values found => some (found.getD [] ++ values))
    hdoc hne ?_ ?_).symm
  · intro v hv doc
    rw [applyField_push]
    simp only [push, addedItems_of_no_each (hvalues v hv)]
  · intro v rest
    funext found
    simp [andThen]

theorem addToSet_each (hdoc : doc.isObject = true) (hne : values ≠ [])
    (hvalues : ∀ v ∈ values, v.field? "$each" = none) :
    apply now (ofOperator .addToSet [(path, each values)]) doc =
      inTurn now .addToSet path values doc := by
  rw [apply_field hdoc, applyField_addToSet]
  refine (inTurn_eq_amend (fun values found =>
      some (values.foldl Value.addTo (found.getD [])))
    hdoc hne ?_ ?_).symm
  · intro v hv doc
    rw [applyField_addToSet]
    simp only [addToSet, addedItems_of_no_each (hvalues v hv)]
  · intro v rest
    funext found
    simp [andThen]

theorem kind_pullAll (hdoc : doc.isObject = true) (hne : values ≠ [])
    (hvalues : ∀ v ∈ values, v.isPlainObject = false) :
    (apply now (ofOperator .pullAll [(path, .array values)]) doc).mapError
      Error.kind =
      (inTurn now .pull path values doc).mapError Error.kind := by
  have hcons : ∀ v rest,
      andThen (Option.map (pullAll [v])) (Option.map (pullAll rest)) =
      Option.map (pullAll (v :: rest)) := by
    intro v rest
    funext found
    cases found with
    | none => rfl
    | some items => simp [andThen, pullAll, List.filter_filter, Bool.and_comm]
  rw [apply_field hdoc, applyField_pullAll, kind_amend .pullAll .pull,
    inTurn_eq_amend (fun values => Option.map (pullAll values)) hdoc hne
      (fun v hv doc => applyField_pull (hvalues v hv) doc) hcons]

/-- One operand that lists some values does what the values do one after
another: what is pushed and what is added to a set gives the same document or
the same error, and so does what is pulled because it is alike, but that the
error may name another operator. A value that is added must not look like a list
of values itself, and one that is pulled must not ask for fields. -/
theorem listed_eq_inTurn (hne : values ≠ []) :
    ((∀ v ∈ values, v.field? "$each" = none) →
      apply now (ofOperator .push [(path, each values)]) doc =
        inTurn now .push path values doc ∧
      apply now (ofOperator .addToSet [(path, each values)]) doc =
        inTurn now .addToSet path values doc) ∧
    ((∀ v ∈ values, v.isPlainObject = false) →
      (apply now (ofOperator .pullAll [(path, .array values)]) doc).mapError
        Error.kind =
        (inTurn now .pull path values doc).mapError Error.kind) := by
  cases hdoc : doc.isObject with
  | false =>
      simp only [apply_of_not_isObject hdoc, inTurn_of_not_isObject hdoc hne,
        implies_true, and_self]
  | true =>
      exact ⟨fun hvalues => ⟨push_each hdoc hne hvalues,
          addToSet_each hdoc hne hvalues⟩,
        kind_pullAll hdoc hne⟩

/-- A tag that is there already, a date, and the tag again. -/
def moreTags : List Value :=
  [.string "a", .object [(Value.dateKey, .string "1970-01-01T00:00:00Z")],
    .string "a"]

theorem listed_eq_inTurn_moreTags :
    (moreTags ≠ [] ∧ (∀ v ∈ moreTags, v.field? "$each" = none) ∧
        ∀ v ∈ moreTags, v.isPlainObject = false) ∧
      inTurn someTime .push "tags" moreTags (Path.tagged "a") =
        .ok (.object [("tags", .array (.string "a" :: moreTags))]) ∧
      inTurn someTime .addToSet "tags" moreTags (Path.tagged "a") =
        .ok (.object [("tags", .array (moreTags.take 2))]) ∧
      (inTurn someTime .pull "tags" moreTags (Path.tagged "a")).mapError
        Error.kind =
        .ok (.object [("tags", .array [])]) ∧
      (inTurn someTime .pull "tags.0" moreTags (Path.tagged "b")).mapError
        Error.kind =
        .error .typeMismatch := by
  have hne : moreTags ≠ [] := List.cons_ne_nil _ _
  have hadded : ∀ v ∈ moreTags, v.field? "$each" = none := by decide +kernel
  have htaken : ∀ v ∈ moreTags, v.isPlainObject = false := by decide +kernel
  refine ⟨⟨hne, hadded, htaken⟩, ?_, ?_, ?_, ?_⟩
  · rw [← ((listed_eq_inTurn hne).1 hadded).1]
    decide +kernel
  · rw [← ((listed_eq_inTurn hne).1 hadded).2]
    decide +kernel
  · rw [← (listed_eq_inTurn hne).2 htaken]
    decide +kernel
  · rw [← (listed_eq_inTurn hne).2 htaken]
    decide +kernel

/-- An empty list makes the array, and no values in turn make nothing. -/
example : apply someTime (ofOperator .push [("tags", each [])]) (.object []) =
    .ok (.object [("tags", .array [])]) := by
  decide +kernel

end DocumentStore.Update
