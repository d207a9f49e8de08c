import DocumentStore.Proofs.Expression
import DocumentStore.Proofs.Value.Alike

/-!
# What an expression reads of a document

An expression mentions paths: the texts with a dollar sign in it, and the keys
whose only value is one. Documents at which these paths read alike give it one
result, or one error (`eval_agree`). Nothing but `ofText` and `ofKey` looks at
the document, so this is a congruence along the parts of the expression; that
the same list may be an array or the arguments of an operator is why the
induction carries both at once.

An expression that mentions nothing and has no operator stands for itself
(`eval_literal`). Dates have a key with a dollar sign and still stand for
themselves, since they are told from operators first.
-/

namespace DocumentStore.Expression

variable {doc other e v : Value} {items : List Value}
  {fields : List (String × Value)}
  {key text : String}

/-! ## Mentioned paths -/

/-- What is read at a path: the part of the document there, if there is one, or
the fault of a text that is no path. -/
def read (doc : Value) (text : String) : Result (Option Value) := do
  let path ← Path.parse text
  .ok (path.get doc)

/-- The path that a text mentions: what comes after its dollar sign, if anything
does. -/
def mentionOfText (text : String) : List String :=
  match text.toList with
  | '$' :: first :: rest => [String.ofList (first :: rest)]
  | _ => []

/-- The path that an object mentions by its key, which is the only one and has
the value one. -/
def mentionOfKey : List (String × Value) → List String
  | [(key, v)] => if isOne v then [withoutDollar key] else []
  | _ => []

mutual

/-- The paths that an expression mentions, at any depth. -/
def mentions : Value → List String
  | .string text => mentionOfText text
  | .array items => mentionsOfItems items
  | .object fields => mentionOfKey fields ++ mentionsOfFields fields
  | .null | .bool _ | .number _ => []

def mentionsOfItems : List Value → List String
  | [] => []
  | v :: rest => mentions v ++ mentionsOfItems rest

def mentionsOfFields : List (String × Value) → List String
  | [] => []
  | (_, v) :: rest => mentions v ++ mentionsOfFields rest

end

theorem mentionsOfItems_eq (items : List Value) :
    mentionsOfItems items = items.flatMap mentions := by
  induction items with
  | nil => rfl
  | cons v rest ih => rw [mentionsOfItems, ih, List.flatMap_cons]

theorem mentionsOfFields_eq (fields : List (String × Value)) :
    mentionsOfFields fields = fields.flatMap fun entry => mentions entry.2 := by
  induction fields with
  | nil => rfl
  | cons entry rest ih => rw [mentionsOfFields, ih, List.flatMap_cons]

/-! ## Documents that read alike -/

/-- Two documents read alike at paths. -/
def Agree (paths : List String) (doc other : Value) : Prop :=
  ∀ text ∈ paths, read doc text = read other text

theorem Agree.of_item (h : Agree (mentions (.array items)) doc other)
    (hv : v ∈ items) :
    Agree (mentions v) doc other := by
  intro text htext
  refine h text ?_
  rw [mentions, mentionsOfItems_eq]
  exact List.mem_flatMap_of_mem hv htext

theorem Agree.of_field {entry : String × Value}
    (h : Agree (mentions (.object fields)) doc other)
    (hentry : entry ∈ fields) : Agree (mentions entry.2) doc other := by
  intro text htext
  refine h text ?_
  rw [mentions, mentionsOfFields_eq]
  exact List.mem_append_right _ (List.mem_flatMap.mpr ⟨entry, hentry, htext⟩)

theorem ofText_congr (h : Agree (mentionOfText text) doc other) :
    ofText doc text = ofText other text := by
  rw [Agree, mentionOfText] at h
  rw [ofText, ofText]
  split
  · next first rest htext =>
      rw [htext] at h
      exact h _ (List.mem_singleton_self _)
  · rfl

theorem ofKey_congr (h : Agree (mentions (.object [(key, v)])) doc other)
    (hone : isOne v = true) :
    ofKey doc key = ofKey other key := by
  refine h (withoutDollar key) ?_
  rw [mentions, mentionOfKey, if_pos hone]
  exact List.mem_cons_self

theorem evalItems_congr (h : ∀ v ∈ items, eval doc v = eval other v) :
    evalItems doc items = evalItems other items := by
  induction items with
  | nil => rw [evalItems, evalItems]
  | cons v rest ih =>
      obtain ⟨hv, hrest⟩ := List.forall_mem_cons.mp h
      rw [evalItems, evalItems, hv, ih hrest]

theorem evalFields_congr
    (h : ∀ entry ∈ fields, eval doc entry.2 = eval other entry.2) :
    evalFields doc fields = evalFields other fields := by
  induction fields with
  | nil => rw [evalFields, evalFields]
  | cons entry rest ih =>
      obtain ⟨hentry, hrest⟩ := List.forall_mem_cons.mp h
      rw [evalFields, evalFields, hentry, ih hrest]

theorem eval_empty (doc : Value) :
    eval doc (.object []) = .ok (some (.object [])) := by
  rw [eval, evalFields]
  · rfl
  · intro key v h
    cases h

/-- An object of several fields is no call of an operator. -/
theorem eval_several (doc : Value) (first second : String × Value)
    (rest : List (String × Value)) :
    eval doc (.object (first :: second :: rest)) = (do
      let fields ← evalFields doc (first :: second :: rest)
      .ok (some (.object fields))) := by
  rw [eval]
  intro key v h
  cases h

/-- What is no list of arguments is the only argument. -/
theorem evalArguments_congr (hv : v.isArray = false)
    (h : eval doc v = eval other v) :
    evalArguments doc v = evalArguments other v := by
  cases v with
  | array items => cases hv
  | _ =>
      rw [evalArguments, evalArguments, h]
      all_goals
        intro items h
        cases h

theorem eval_single_congr (h : Agree (mentions (.object [(key, v)])) doc other)
    (hv : eval doc v = eval other v)
    (harguments : evalArguments doc v = evalArguments other v) :
    eval doc (.object [(key, v)]) = eval other (.object [(key, v)]) := by
  rw [eval, eval]
  split
  · rfl
  · split
    · rw [harguments]
    · split
      · next hone => exact ofKey_congr h hone
      · rw [hv]

theorem eval_object_congr (h : Agree (mentions (.object fields)) doc other)
    (hparts : ∀ entry ∈ fields, eval doc entry.2 = eval other entry.2 ∧
      evalArguments doc entry.2 = evalArguments other entry.2) :
    eval doc (.object fields) = eval other (.object fields) := by
  cases fields with
  | nil => rw [eval_empty, eval_empty]
  | cons first rest =>
      cases rest with
      | nil =>
          obtain ⟨hv, harguments⟩ := hparts first List.mem_cons_self
          exact eval_single_congr h hv harguments
      | cons second rest =>
          rw [eval_several, eval_several,
            evalFields_congr fun entry hentry => (hparts entry hentry).1]

/-- Where two documents read alike at all that an expression mentions, they give
it one result, and one list of results if it is the arguments of an operator. -/
theorem eval_agree (h : Agree (mentions e) doc other) :
    eval doc e = eval other e ∧
      evalArguments doc e = evalArguments other e := by
  induction e using Value.parts_induction with
  | null | bool _ | number _ =>
      constructor
      · rw [eval, eval]
      · exact evalArguments_congr rfl (by rw [eval, eval])
  | string text =>
      have htext : eval doc (.string text) = eval other (.string text) := by
        rw [eval, eval, ofText_congr h]
      exact ⟨htext, evalArguments_congr rfl htext⟩
  | array items ih =>
      have hitems : evalItems doc items = evalItems other items :=
        evalItems_congr fun v hv => (ih v hv (h.of_item hv)).1
      constructor
      · rw [eval, eval, hitems]
      · rw [evalArguments, evalArguments, hitems]
  | object fields ih =>
      have hparts := fun entry hentry => ih entry hentry (h.of_field hentry)
      have hobject := eval_object_congr h hparts
      exact ⟨hobject, evalArguments_congr rfl hobject⟩

/-! ## Literals -/

/-- No object in a value has a key with a dollar sign, but for dates. -/
inductive DollarFree : Value → Prop
  | null : DollarFree .null
  | bool (b : Bool) : DollarFree (.bool b)
  | number (n : Number) : DollarFree (.number n)
  | string (s : String) : DollarFree (.string s)
  | array {items : List Value} (hitems : ∀ v ∈ items, DollarFree v) :
      DollarFree (.array items)
  | date {fields : List (String × Value)}
      (hdate : Value.isDate (.object fields) = true) :
      DollarFree (.object fields)
  | object {fields : List (String × Value)}
      (hkeys : ∀ entry ∈ fields, Fields.isOperator entry.1 = false)
      (hvalues : ∀ entry ∈ fields, DollarFree entry.2) :
      DollarFree (.object fields)

theorem ofName?_eq_none (h : Fields.isOperator key = false) :
    Operator.ofName? key = none := by
  unfold Operator.ofName?
  split
  case h_16 => rfl
  all_goals exact absurd h (by decide +kernel)

theorem ofText_literal (h : mentionOfText text = []) :
    ofText doc text = .ok (some (.string text)) := by
  rw [mentionOfText] at h
  rw [ofText]
  split
  · next htext =>
      rw [htext] at h
      cases h
  · rfl

theorem evalItems_literal (h : ∀ v ∈ items, eval doc v = .ok (some v)) :
    evalItems doc items = .ok (items.map some) := by
  induction items with
  | nil => rw [evalItems, List.map_nil]
  | cons v rest ih =>
      obtain ⟨hv, hrest⟩ := List.forall_mem_cons.mp h
      rw [evalItems, hv, ih hrest]
      rfl

theorem evalFields_literal
    (h : ∀ entry ∈ fields, eval doc entry.2 = .ok (some entry.2)) :
    evalFields doc fields = .ok fields := by
  induction fields with
  | nil => rw [evalFields]
  | cons entry rest ih =>
      obtain ⟨hentry, hrest⟩ := List.forall_mem_cons.mp h
      rw [evalFields, hentry, ih hrest]
      rfl

theorem eval_date (h : Value.isDate (.object fields) = true) :
    eval doc (.object fields) = .ok (some (.object fields)) := by
  obtain ⟨t, ht⟩ := Option.isSome_iff_exists.mp h
  obtain ⟨w, hw, -⟩ := Value.asDate?_eq_some_iff.mp ht
  cases hw
  rw [eval, if_pos h]

theorem eval_single_literal (hone : mentionOfKey [(key, v)] = [])
    (hkey : Fields.isOperator key = false) (hv : eval doc v = .ok (some v)) :
    eval doc (.object [(key, v)]) = .ok (some (.object [(key, v)])) := by
  have hnotOne : ¬ isOne v = true := by
    intro h
    rw [mentionOfKey, if_pos h] at hone
    cases hone
  have hnotOperator : ¬ Fields.isOperator key = true := by
    rw [hkey]
    exact Bool.false_ne_true
  by_cases hdate : Value.isDate (.object [(key, v)]) = true
  · exact eval_date hdate
  · rw [eval, if_neg hdate, ofName?_eq_none hkey]
    dsimp only
    rw [if_neg hnotOne, if_neg hnotOperator, hv]
    rfl

/-- What mentions nothing and has no operator is its own result, with the fields
in their order. -/
theorem eval_literal (hnone : mentions e = []) (he : DollarFree e)
    (doc : Value) :
    eval doc e = .ok (some e) := by
  induction he with
  | null | bool _ | number _ => rw [eval]
  | string s =>
      rw [eval]
      exact ofText_literal hnone
  | @array items hitems ih =>
      rw [mentions, mentionsOfItems_eq, List.flatMap_eq_nil_iff] at hnone
      have hsame : (items.map some).map (fun result => result.getD .null) =
          items := by
        rw [List.map_map]
        exact List.map_id items
      rw [eval, evalItems_literal fun v hv => ih v hv (hnone v hv)]
      exact congrArg (fun results => Except.ok
        (some (Value.array results))) hsame
  | date hdate => exact eval_date hdate
  | @object fields hkeys hvalues ih =>
      rw [mentions, List.append_eq_nil_iff, mentionsOfFields_eq,
        List.flatMap_eq_nil_iff] at hnone
      obtain ⟨hkey, hfields⟩ := hnone
      have hparts : ∀ entry ∈ fields, eval doc entry.2 = .ok (some entry.2) :=
        fun entry hentry => ih entry hentry (hfields entry hentry)
      cases fields with
      | nil => exact eval_empty doc
      | cons first rest =>
          cases rest with
          | nil =>
              exact eval_single_literal hkey (hkeys _ List.mem_cons_self)
                (hparts _ List.mem_cons_self)
          | cons second rest =>
              rw [eval_several, evalFields_literal hparts]
              rfl

/-! ## The two together -/

/-- The result of an expression depends on nothing of a document but what is
read at the paths that the expression mentions, and an expression without any,
and without operators, is its own result. -/
theorem reads_only_mentions (e : Value) :
    (∀ doc other, Agree (mentions e) doc other → eval doc e = eval other e) ∧
      (mentions e = [] → DollarFree e → ∀ doc, eval doc e = .ok (some e)) :=
  ⟨fun _ _ h => (eval_agree h).1, eval_literal⟩

/-- The price with the tax. The tax is asked for by its key alone. -/
def charge : Value :=
  .object [("total", .object [("$add",
    .array [.string "$price", .object [("tax", .ofInt 1)]])])]

/-- An item with a note, which `charge` does not mention. -/
def priced (note : String) : Value :=
  .object [("price", .ofInt 10), ("tax", .ofInt 2), ("note", .string note)]

/-- A literal that holds a date. -/
def label : Value :=
  .object [("tags", .array [.string "new", .object [("$date", .ofInt 0)]]),
    ("sold", .bool true)]

theorem reads_only_mentions_charge :
    mentions charge = ["price", "tax"] ∧
      Agree (mentions charge) (priced "a") (priced "b") ∧
      eval (priced "a") charge = eval (priced "b") charge ∧
      mentions label = [] ∧ DollarFree label ∧
      eval (priced "a") label = .ok (some label) := by
  have hmentions : mentions charge = ["price", "tax"] := by decide +kernel
  have hagree : Agree (mentions charge) (priced "a") (priced "b") := by
    rw [hmentions]
    unfold Agree
    decide +kernel
  have hnone : mentions label = [] := by decide +kernel
  have hlabel : DollarFree label := by
    refine .object (by decide +kernel) fun entry hentry => ?_
    simp only [List.mem_cons, List.not_mem_nil, or_false] at hentry
    rcases hentry with rfl | rfl
    · refine .array fun v hv => ?_
      simp only [List.mem_cons, List.not_mem_nil, or_false] at hv
      rcases hv with rfl | rfl
      · exact .string "new"
      · exact .date (by decide +kernel)
    · exact .bool true
  exact ⟨hmentions, hagree, (reads_only_mentions charge).1 _ _ hagree,
    hnone, hlabel,
    (reads_only_mentions label).2 hnone hlabel _⟩

end DocumentStore.Expression
