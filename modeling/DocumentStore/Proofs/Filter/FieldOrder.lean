import DocumentStore.Filter
import DocumentStore.Proofs.Run
import DocumentStore.Proofs.Update
import DocumentStore.Proofs.Value.Reordered

/-!
# Filters do not see the order of fields

A value and a clause are handed over once in one order of their fields and once
in another. The two answers need not be the same: the conditions of a clause are
asked in its order and the first that is not fulfilled ends it, so one order can
find that out where the other meets an error first. What holds is that the
answers do not contradict each other: where both are there they are the same.

Two results are `Concordant` along a relation if their values, where both have
one, are related. That goes through sequences of steps (`Concordant.bind`), so
two runs that take the same steps are compared step by step. All tests but one
are such pairs: of the fields of a clause one run may ask the last first. There
a field that is not fulfilled is asked by the other run too, unless that ends
before it (`corresponds_holdsFields`).
-/

namespace DocumentStore.Filter

open DocumentStore.Value (Reordered)

variable {α β γ δ : Type}

/-! ## Results that do not contradict each other -/

/-- The values, where both results have one, are related. -/
def Concordant (R : α → β → Prop) (r : Result α) (s : Result β) : Prop :=
  ∀ a b, r = .ok a → s = .ok b → R a b

namespace Concordant

variable {R : α → β → Prop} {S : γ → δ → Prop} {r : Result α} {s : Result β}

theorem ok {a : α} {b : β} (h : R a b) : Concordant R (.ok a) (.ok b) := by
  intro x y hx hy
  cases hx
  cases hy
  exact h

theorem error (e : Error) : Concordant R (.error e) s := nofun

theorem refl (r : Result α) : Concordant (· = ·) r r :=
  fun _ _ ha hb => Except.ok.inj (ha.symm.trans hb)

theorem bind {f : α → Result γ} {g : β → Result δ} (h : Concordant R r s)
    (hfg : ∀ a b, R a b → Concordant S (f a) (g b)) :
    Concordant S (r >>= f) (s >>= g) := by
  intro x y hx hy
  obtain ⟨a, ha, hx⟩ := bind_eq_ok.mp hx
  obtain ⟨b, hb, hy⟩ := bind_eq_ok.mp hy
  exact hfg a b (h a b ha hb) x y hx hy

/-- The step of a condition: what is done next hangs on its answer. -/
theorem branch {p q : Result Bool} {yes no : Result γ} {yes' no' : Result δ}
    (h : Concordant (· = ·) p q) (hyes : Concordant S yes yes')
    (hno : Concordant S no no') :
    Concordant S (p >>= fun b => if b then yes else no)
      (q >>= fun b => if b then yes' else no') := by
  refine h.bind fun a b hab => ?_
  subst hab
  cases a with
  | true => exact hyes
  | false => exact hno

theorem not {p q : Result Bool} (h : Concordant (· = ·) p q) :
    Concordant (· = ·) ((! ·) <$> p) ((! ·) <$> q) := by
  intro x y hx hy
  obtain ⟨a, ha, rfl⟩ := map_eq_ok.mp hx
  obtain ⟨b, hb, rfl⟩ := map_eq_ok.mp hy
  rw [h a b ha hb]

end Concordant

/-! ## Tests -/

/-- The tests give concordant answers on reordered values. -/
def Corresponds (test test' : Test) : Prop :=
  ∀ found found', Option.Rel Reordered found found' →
    Concordant (· = ·) (test found) (test' found')

variable {v w : Value} {found found' : Option Value} {xs ys : List Value}
  {test test' next next' : Test} {tests tests' : List Test}

theorem corresponds_of_cases
    (hnone : Concordant (· = ·) (test none) (test' none))
    (hsome : ∀ x y, Reordered x y →
      Concordant (· = ·) (test (some x)) (test' (some y))) :
    Corresponds test test' := by
  intro found found' hfound
  cases hfound with
  | none => exact hnone
  | some hxy => exact hsome _ _ hxy

theorem corresponds_ok (b : Bool) :
    Corresponds (fun _ => .ok b) (fun _ => .ok b) :=
  fun _ _ _ => .ok rfl

theorem corresponds_literal (h : Reordered v w) :
    Corresponds (literal v) (literal w) := by
  refine corresponds_of_cases (.ok rfl) fun x y hxy => .ok ?_
  rw [hxy.alike_eq h]
  cases hxy with
  | array hlength hitems =>
      exact congrArg _ (h.isAmong_eq (Value.forall₂_of_getElem? hlength hitems))
  | _ => rfl

/-! ### Tests made of tests -/

theorem Corresponds.both (h : Corresponds test test')
    (hnext : Corresponds next next') :
    Corresponds (both test next) (both test' next') :=
  fun found found' hfound =>
    (h found found' hfound).branch (hnext found found' hfound) (.ok rfl)

theorem Corresponds.negation (h : Corresponds test test') :
    Corresponds (negation test) (negation test') :=
  fun found found' hfound => (h found found' hfound).not

theorem corresponds_allOf (h : List.Forall₂ Corresponds tests tests') :
    Corresponds (allOf tests) (allOf tests') := by
  induction h with
  | nil => exact corresponds_ok true
  | cons htest _ ih => exact htest.both ih

theorem corresponds_anyOf (h : List.Forall₂ Corresponds tests tests') :
    Corresponds (anyOf tests) (anyOf tests') := by
  induction h with
  | nil => exact corresponds_ok false
  | cons htest _ ih =>
      exact fun found found' hfound =>
        (htest found found' hfound).branch (.ok rfl) (ih found found' hfound)

theorem concordant_pairwise (h : List.Forall₂ Corresponds tests tests')
    (hitems : List.Forall₂ Reordered xs ys) :
    Concordant (· = ·) (pairwise tests xs) (pairwise tests' ys) := by
  induction h generalizing xs ys with
  | nil => exact .ok rfl
  | cons htest _ ih =>
      cases hitems with
      | nil => exact .ok rfl
      | cons hxy hrest =>
          exact (htest _ _ (.some hxy)).branch (ih hrest) (.ok rfl)

theorem corresponds_elementwise (h : List.Forall₂ Corresponds tests tests') :
    Corresponds (elementwise tests) (elementwise tests') := by
  refine corresponds_of_cases (.ok rfl) fun x y hxy => ?_
  cases hxy with
  | array hlength hitems =>
      rw [elementwise, elementwise, hlength, h.length_eq]
      split
      · exact concordant_pairwise h (Value.forall₂_of_getElem? hlength hitems)
      · exact .ok rfl
  | _ => exact .ok rfl

theorem concordant_everyElement (h : Corresponds test test')
    (hitems : List.Forall₂ Reordered xs ys) :
    Concordant (· = ·) (everyElement test xs) (everyElement test' ys) := by
  induction hitems with
  | nil => exact .ok rfl
  | cons hxy _ ih => exact (h _ _ (.some hxy)).branch ih (.ok rfl)

theorem corresponds_requireAll (h : Reordered v w)
    (hclause : Corresponds test test')
    (hmembers : List.Forall₂ Corresponds tests tests') :
    Corresponds (requireAll v test tests) (requireAll w test' tests') := by
  rw [requireAll, requireAll, h.isArray_eq]
  split
  · exact corresponds_allOf hmembers
  · refine corresponds_of_cases (hclause _ _ .none) fun x y hxy => ?_
    cases hxy with
    | array hlength hitems =>
        exact concordant_everyElement hclause
          (Value.forall₂_of_getElem? hlength hitems)
    | object hnodup hkeys hfields =>
        exact hclause _ _ (.some (.object hnodup hkeys hfields))
    | null => exact hclause _ _ (.some .null)
    | bool b => exact hclause _ _ (.some (.bool b))
    | number n => exact hclause _ _ (.some (.number n))
    | string s => exact hclause _ _ (.some (.string s))

theorem corresponds_ofList (name : String) (h : Reordered v w)
    (htest : Corresponds test test') :
    Corresponds (ofList name v test) (ofList name w test') := by
  rw [ofList, ofList, h.isArray_eq]
  split
  · exact htest
  · exact fun _ _ _ => .error _

/-! ### Tests of elements -/

theorem spread_of_not_array (test : Test) (h : v.isArray = false) :
    spread test v = test (some v) := by
  cases v with
  | array items => cases h
  | null => rw [spread]; exact nofun
  | bool b => rw [spread]; exact nofun
  | number n => rw [spread]; exact nofun
  | string s => rw [spread]; exact nofun
  | object fields => rw [spread]; exact nofun

theorem concordant_spread_of_not_array (h : Corresponds test test')
    (hvw : Reordered v w) (hv : v.isArray = false) :
    Concordant (· = ·) (spread test v) (spread test' w) := by
  rw [spread_of_not_array test hv,
    spread_of_not_array test' (hvw.isArray_eq.symm.trans hv)]
  exact h _ _ (.some hvw)

theorem concordant_spreadItems
    (h : List.Forall₂
      (fun x y => Concordant (· = ·) (spread test x) (spread test' y)) xs ys) :
    Concordant (· = ·) (spreadItems test xs) (spreadItems test' ys) := by
  induction h with
  | nil => exact .ok rfl
  | cons hfirst _ ih => exact hfirst.branch (.ok rfl) ih

theorem concordant_spread (h : Corresponds test test') (hvw : Reordered v w) :
    Concordant (· = ·) (spread test v) (spread test' w) := by
  induction hvw with
  | array hlength _ ih =>
      rw [spread, spread]
      exact concordant_spreadItems (Value.forall₂_of_getElem? hlength ih)
  | object hnodup hkeys hfields =>
      exact concordant_spread_of_not_array h (.object hnodup hkeys hfields) rfl
  | null => exact concordant_spread_of_not_array h .null rfl
  | bool b => exact concordant_spread_of_not_array h (.bool b) rfl
  | number n => exact concordant_spread_of_not_array h (.number n) rfl
  | string s => exact concordant_spread_of_not_array h (.string s) rfl

theorem Corresponds.overElements (h : Corresponds test test') :
    Corresponds (overElements test) (overElements test') :=
  corresponds_of_cases (h _ _ .none) fun _ _ hxy => concordant_spread h hxy

/-! ## Patterns and kinds

What a pattern is, how it is read and where it is found is of no account: a
pattern is read from strings and looked for in a string, and strings have no
order of fields. So the lemmas are about any patterns `π` with any reader and
any way of looking for them, and those of the filter are a case of them
(`search_eq`). -/

section AnyPattern

variable {π : Type} (read : String → List Char → Result π)
  (isMatch : π → List Char → Bool)
  {options options' : Option Value} {siblings siblings' : List (String × Value)}

/-- The pattern that values describe, by a reader of its text and its
options. -/
def readBy (pattern : Value) (options : Option Value) : Result π :=
  pattern.asString?.elim (.error (.invalidQuery .patternText)) fun text =>
    read text ((options.bind Value.asString?).elim [] String.toList)

/-- Whether a value is a string in which a pattern is found. -/
def foundBy (p : π) (found : Option Value) : Bool :=
  (found.bind Value.asString?).any fun s => isMatch p s.toList

/-- The test for a pattern, whose options stand beside it. -/
def searchBy (siblings : List (String × Value)) (operand : Value) : Test :=
  fun found => do
  let p ← readBy read operand (Fields.get? Value.optionsKey siblings)
  .ok (foundBy isMatch p found)

theorem readBy_eq (h : Reordered v w)
    (hoptions : Option.Rel Reordered options options') :
    readBy read v options = readBy read w options' := by
  rw [readBy, readBy, h.asString?_eq, Value.asString?_of_rel hoptions]

theorem foundBy_eq (p : π) (h : Option.Rel Reordered found found') :
    foundBy isMatch p found = foundBy isMatch p found' := by
  rw [foundBy, foundBy, Value.asString?_of_rel h]

theorem corresponds_searchBy
    (hsiblings : Reordered (.object siblings) (.object siblings'))
    (h : Reordered v w) :
    Corresponds (searchBy read isMatch siblings v)
      (searchBy read isMatch siblings' w) := by
  intro found found' hfound
  rw [searchBy, searchBy, readBy_eq read h (hsiblings.get? _)]
  refine (Concordant.refl _).bind fun p q hpq => ?_
  subst hpq
  exact .ok (foundBy_eq isMatch p hfound)

end AnyPattern

/-- The reader of the filter's patterns. -/
def readPattern (text : String) (options : List Char) : Result Pattern :=
  (Pattern.read? (flags options) text.toList).elim
    (.error (.invalidQuery (.pattern text))) .ok

theorem compile_eq_readBy (pattern : Value) (options : Option Value) :
    compile pattern options = readBy readPattern pattern options := by
  cases pattern with
  | string text =>
      rw [compile, readBy, Value.asString?, Option.elim_some, readPattern]
      cases Pattern.read? _ text.toList with
      | some p => rfl
      | none => rfl
  | null => rfl
  | bool b => rfl
  | number n => rfl
  | array items => rfl
  | object fields => rfl

theorem isFound_eq_foundBy (p : Pattern) (found : Option Value) :
    isFound p found = foundBy Pattern.isMatch p found := by
  cases found with
  | none => rfl
  | some v => cases v <;> rfl

theorem search_eq (siblings : List (String × Value)) (operand : Value) :
    search siblings operand =
      searchBy readPattern Pattern.isMatch siblings operand := by
  funext found
  simp only [search, searchBy, compile_eq_readBy, isFound_eq_foundBy]

theorem compile_eq {options options' : Option Value} (h : Reordered v w)
    (hoptions : Option.Rel Reordered options options') :
    compile v options = compile w options' := by
  rw [compile_eq_readBy, compile_eq_readBy, readBy_eq readPattern h hoptions]

theorem corresponds_search {siblings siblings' : List (String × Value)}
    (hsiblings : Reordered (.object siblings) (.object siblings'))
    (h : Reordered v w) :
    Corresponds (search siblings v) (search siblings' w) := by
  rw [search_eq, search_eq]
  exact corresponds_searchBy readPattern Pattern.isMatch hsiblings h

theorem corresponds_ofKind (h : Reordered v w) :
    Corresponds (ofKind v) (ofKind w) := by
  intro found found' hfound
  cases h with
  | string s => exact .ok (Value.isOfKind_of_rel hfound s)
  | _ => exact .error _

/-! ## Comparisons -/

theorem inOrder_eq (accept : Ordering → Bool) (h : Reordered v w)
    (hfound : Option.Rel Reordered found found') :
    inOrder accept v found = inOrder accept w found' := by
  cases hfound with
  | none => rfl
  | some hxy => exact congrArg (·.any accept) (hxy.compare?_eq h)

theorem reordered_getD (h : Option.Rel Reordered found found') :
    Reordered (found.getD .null) (found'.getD .null) := by
  cases h with
  | none => exact .null
  | some h => exact h

/-- The pattern that a candidate is. -/
theorem compile_field_eq (h : Reordered v w) :
    compile ((v.field? Value.patternKey).getD .null)
      (v.field? Value.optionsKey) =
      compile ((w.field? Value.patternKey).getD .null)
        (w.field? Value.optionsKey) :=
  compile_eq (reordered_getD (h.field? _)) (h.field? _)

theorem concordant_isOneOf (h : Reordered v w)
    (hcandidates : List.Forall₂ Reordered xs ys) :
    Concordant (· = ·) (isOneOf v xs) (isOneOf w ys) := by
  induction hcandidates with
  | nil => exact .ok rfl
  | cons hxy _ ih =>
      have halike := h.alike_eq hxy
      rw [isOneOf.eq_def, isOneOf.eq_def]
      dsimp only
      rw [hxy.isPattern_eq, compile_field_eq hxy, halike]
      split
      · cases h with
        | string s =>
            refine (Concordant.refl _).bind fun p q hpq => ?_
            subst hpq
            split
            · exact .ok rfl
            · exact ih
        | _ => exact ih
      · split
        · exact .ok rfl
        · exact ih

theorem candidates_forall₂ (h : Reordered v w) :
    List.Forall₂ Reordered (candidates v) (candidates w) := by
  cases h with
  | array hlength hitems => exact Value.forall₂_of_getElem? hlength hitems
  | object hnodup hkeys hfields =>
      exact .cons (.object hnodup hkeys hfields) .nil
  | null => exact .cons .null .nil
  | bool b => exact .cons (.bool b) .nil
  | number n => exact .cons (.number n) .nil
  | string s => exact .cons (.string s) .nil

theorem corresponds_isListed (h : Reordered v w) :
    Corresponds (isListed v) (isListed w) :=
  corresponds_of_cases (.ok rfl) fun _ _ hxy =>
    concordant_isOneOf hxy (candidates_forall₂ h)

theorem corresponds_inOrder (accept : Ordering → Bool) (h : Reordered v w) :
    Corresponds (fun value => .ok (inOrder accept v value))
      (fun value => .ok (inOrder accept w value)) :=
  fun _ _ hfound => .ok (inOrder_eq accept h hfound)

theorem corresponds_comparison (c : Comparison) (h : Reordered v w) :
    Corresponds (c.test v) (c.test w) := by
  cases c with
  | eq =>
      refine Corresponds.overElements fun found found' hfound => .ok ?_
      cases hfound with
      | none => rfl
      | some hxy => exact hxy.alike_eq h
  | ne =>
      refine corresponds_of_cases (.ok rfl) fun x y hxy => ?_
      have halike := hxy.alike_eq h
      cases hxy with
      | array hlength hitems =>
          exact .ok (congrArg (! ·)
            (h.isAmong_eq (Value.forall₂_of_getElem? hlength hitems)))
      | _ => exact .ok (congrArg (! ·) halike)
  | gt => exact (corresponds_inOrder _ h).overElements
  | gte => exact (corresponds_inOrder _ h).overElements
  | lt => exact (corresponds_inOrder _ h).overElements
  | lte => exact (corresponds_inOrder _ h).overElements
  | oneOf => exact (corresponds_isListed h).overElements
  | noneOf => exact (corresponds_isListed h).negation.overElements

/-! ## Computed conditions -/

/-- Two values that are computed, and may be missing, are reordered. -/
abbrev ValuesAgree : Result (Option Value) → Result (Option Value) → Prop :=
  Concordant (Option.Rel Reordered)

namespace Expr

variable {doc doc' e e' x y : Value}

theorem order_eq {first second first' second' : Option Value}
    (hfirst : Option.Rel Reordered first first')
    (hsecond : Option.Rel Reordered second second') :
    order first second = order first' second' := by
  cases hfirst with
  | none =>
      cases hsecond with
      | none => rfl
      | some h => rfl
  | some hx =>
      cases hsecond with
      | none => rfl
      | some hy => rw [order, order, hx.compare?_eq hy]

theorem asDouble?_eq (h : Option.Rel Reordered found found') :
    found.bind Value.asDouble? = found'.bind Value.asDouble? := by
  cases h with
  | none => rfl
  | some h => exact congrArg (·.map Number.toDouble) h.asNumber?_eq

theorem binary_eq (f : Function) {first second first' second' : Option Value}
    (hfirst : Option.Rel Reordered first first')
    (hsecond : Option.Rel Reordered second second') :
    binary f first second = binary f first' second' := by
  rw [binary, binary, order_eq hfirst hsecond, asDouble?_eq hfirst,
    asDouble?_eq hsecond]

theorem unary_eq (f : Function) (h : Option.Rel Reordered found found') :
    unary f found = unary f found' := by
  rw [unary, unary, asDouble?_eq h]

theorem wellFormed_binary (f : Function) (first second : Option Value) :
    (binary f first second).WellFormed := by
  rw [binary]
  split
  · exact Value.wellFormed_ofInt _
  · split
    · split <;> exact Value.wellFormed_ofDouble? _
    · exact Value.wellFormed_null

theorem wellFormed_unary (f : Function) (found : Option Value) :
    (unary f found).WellFormed := by
  rw [unary]
  split
  · exact Value.wellFormed_null
  · split <;> exact Value.wellFormed_ofDouble? _

theorem valuesAgree_ofText (hdoc : Reordered doc doc') (text : String) :
    ValuesAgree (ofText doc text) (ofText doc' text) := by
  rw [ofText, ofText]
  split
  · refine (Concordant.refl _).bind fun p q hpq => ?_
    subst hpq
    exact .ok (Path.lookup_of_reordered p.segments hdoc)
  · exact .ok (.some (.string text))

/-- What a name makes of arguments that agree. -/
theorem valuesAgree_apply (name : String) (h : Reordered x y)
    {whole whole' : Result (Option Value)} (hwhole : ValuesAgree whole whole')
    {members members' : List (Result (Option Value))}
    (hmembers : List.Forall₂ ValuesAgree members members') :
    ValuesAgree (apply name x whole members)
      (apply name y whole' members') := by
  rw [apply, apply]
  cases Function.ofName? name with
  | none =>
      dsimp only
      split
      · exact .error _
      · exact .ok (.some (h.singleton name))
  | some f =>
      dsimp only
      cases f.binaryName? with
      | some title =>
          cases hmembers with
          | nil => exact .error _
          | cons hfirst hrest =>
              cases hrest with
              | nil => exact .error _
              | cons hsecond hmore =>
                  cases hmore with
                  | nil =>
                      refine hfirst.bind fun a a' ha =>
                        hsecond.bind fun b b' hb => ?_
                      rw [binary_eq f ha hb]
                      exact .ok (.some (.refl _ (wellFormed_binary f a' b')))
                  | cons _ _ => exact .error _
      | none =>
          have hunary : ∀ a b, Option.Rel Reordered a b →
              ValuesAgree (.ok (some (unary f a)))
                (.ok (some (unary f b))) := by
            intro a b hab
            rw [unary_eq f hab]
            exact .ok (.some (.refl _ (wellFormed_unary f b)))
          cases hmembers with
          | nil => exact hwhole.bind hunary
          | cons hfirst hrest =>
              cases hrest with
              | nil => exact hfirst.bind hunary
              | cons _ _ => exact hwhole.bind hunary

theorem value_of_length {fields : List (String × Value)}
    (h : fields.length ≠ 1) :
    value doc (.object fields) = .ok (some (.object fields)) := by
  match fields, h with
  | [], _ => rw [value]; all_goals exact nofun
  | _ :: _ :: _, _ => rw [value]; all_goals exact nofun

theorem forall₂_itemValues {xs ys : List Value}
    (h : List.Forall₂
      (fun x y => ValuesAgree (value doc x) (value doc' y)) xs ys) :
    List.Forall₂ ValuesAgree (itemValues doc xs) (itemValues doc' ys) := by
  induction h with
  | nil => exact .nil
  | cons hxy _ ih => exact .cons hxy ih

/-- An expression as a value, and its elements as values if it is a list. -/
theorem valuesAgree_value (hdoc : Reordered doc doc') (h : Reordered e e') :
    ValuesAgree (value doc e) (value doc' e') ∧
      List.Forall₂ ValuesAgree (memberValues doc e) (memberValues doc' e') := by
  induction h with
  | array hlength hitems ih =>
      have hpairs := Value.forall₂_of_getElem? hlength fun i x y hx hy =>
        (ih i x y hx hy).1
      exact ⟨.ok (.some (.array hlength hitems)), forall₂_itemValues hpairs⟩
  | @object fields fields' hnodup hkeys hfields ih =>
      have hobject : Reordered (.object fields) (.object fields') :=
        .object hnodup hkeys hfields
      refine ⟨?_, .nil⟩
      by_cases hone : fields.length = 1
      · obtain ⟨⟨name, x⟩, rfl⟩ := List.length_eq_one_iff.mp hone
        obtain ⟨y, rfl, hxy⟩ := hobject.single
        obtain ⟨hwhole, hmembers⟩ := ih name x y (if_pos rfl) (if_pos rfl)
        rw [value, value]
        exact valuesAgree_apply name hxy hwhole hmembers
      · have hother : fields'.length ≠ 1 := hobject.length_fields ▸ hone
        rw [value_of_length hone, value_of_length hother]
        exact .ok (.some hobject)
  | null => exact ⟨.ok (.some .null), .nil⟩
  | bool b => exact ⟨.ok (.some (.bool b)), .nil⟩
  | number n => exact ⟨.ok (.some (.number n)), .nil⟩
  | string s =>
      refine ⟨?_, .nil⟩
      rw [value, value]
      exact valuesAgree_ofText hdoc s

/-- The same comparison of reordered sides. -/
def SidesAgree (first second : Comparison × Value × Value) : Prop :=
  first.1 = second.1 ∧ Reordered first.2.1 second.2.1 ∧
    Reordered first.2.2 second.2.2

theorem asComparison?_single (name : String) (h : Reordered x y) :
    Option.Rel SidesAgree (asComparison? (.object [(name, x)]))
      (asComparison? (.object [(name, y)])) := by
  cases h with
  | array hlength hitems =>
      cases Value.forall₂_of_getElem? hlength hitems with
      | nil => exact .none
      | cons hleft hrest =>
          cases hrest with
          | nil => exact .none
          | cons hright hmore =>
              cases hmore with
              | nil =>
                  rw [asComparison?, asComparison?]
                  split
                  · exact .some ⟨rfl, hleft, hright⟩
                  · exact .none
              | cons _ _ => exact .none
  | _ => exact .none

theorem asComparison?_of_length {fields : List (String × Value)}
    (h : fields.length ≠ 1) :
    asComparison? (.object fields) = none := by
  rw [asComparison?.eq_def]
  split
  · next heq =>
      cases heq
      exact absurd rfl h
  · rfl

theorem sidesAgree_of_reordered (h : Reordered e e') :
    Option.Rel SidesAgree (asComparison? e) (asComparison? e') := by
  cases h with
  | @object fields fields' hnodup hkeys hfields =>
      have hobject : Reordered (.object fields) (.object fields') :=
        .object hnodup hkeys hfields
      by_cases hone : fields.length = 1
      · obtain ⟨⟨name, x⟩, rfl⟩ := List.length_eq_one_iff.mp hone
        obtain ⟨y, rfl, hxy⟩ := hobject.single
        exact asComparison?_single name hxy
      · have hother : fields'.length ≠ 1 := hobject.length_fields ▸ hone
        rw [asComparison?_of_length hone, asComparison?_of_length hother]
        exact .none
  | _ => exact .none

theorem concordant_holds (hdoc : Reordered doc doc') (h : Reordered e e') :
    Concordant (· = ·) (holds doc e) (holds doc' e') := by
  rw [holds, holds]
  rcases Value.rel_cases (sidesAgree_of_reordered h) with
    ⟨hnone, hnone'⟩ | ⟨⟨c, left, right⟩, ⟨c', left', right'⟩, hsome, hsome', hc,
      hleft, hright⟩
  · rw [hnone, hnone']
    refine (valuesAgree_value hdoc h).1.bind fun a b hab => ?_
    rw [Value.Reordered.isTruthy_eq hab]
    exact .ok rfl
  · rw [hsome, hsome']
    cases hc
    refine (valuesAgree_value hdoc hleft).1.bind fun a a' ha => ?_
    refine (valuesAgree_value hdoc hright).1.bind fun b b' hb => ?_
    exact corresponds_comparison c (reordered_getD hb) a a' ha

end Expr

/-! ## Operators -/

variable {siblings siblings' : List (String × Value)}

theorem reordered_ofInt (n : Int) : Reordered (.ofInt n) (.ofInt n) :=
  .refl _ (Value.wellFormed_ofInt n)

theorem corresponds_size (h : Corresponds test test') :
    Corresponds
      (fun found =>
        match found with
        | some (.array items) => test (some (.ofNat items.length))
        | _ => .ok false)
      (fun found =>
        match found with
        | some (.array items) => test' (some (.ofNat items.length))
        | _ => .ok false) := by
  refine corresponds_of_cases (.ok rfl) fun x y hxy => ?_
  cases hxy with
  | @array xs ys hlength hitems =>
      dsimp only
      rw [hlength]
      exact h _ _ (.some (reordered_ofInt _))
  | _ => exact .ok rfl

theorem corresponds_expr (h : Reordered v w) :
    Corresponds
      (fun found =>
        match found with
        | some doc => Expr.holds doc v
        | none => .ok false)
      (fun found =>
        match found with
        | some doc => Expr.holds doc w
        | none => .ok false) :=
  corresponds_of_cases (.ok rfl) fun _ _ hxy => Expr.concordant_holds hxy h

theorem corresponds_present (h : Reordered v w) :
    Corresponds (fun found => .ok (found.isSome == Value.isTruthy (some v)))
      (fun found => .ok (found.isSome == Value.isTruthy (some w))) := by
  intro found found' hfound
  rw [Value.Reordered.isTruthy_eq (.some h)]
  cases hfound with
  | none => exact .ok rfl
  | some hxy => exact .ok rfl

/-- The operators, each in terms of the tests of its operand. -/
theorem corresponds_operator (op : Operator)
    (hsiblings : Reordered (.object siblings) (.object siblings'))
    (h : Reordered v w) (hclause : Corresponds test test')
    (hmembers : List.Forall₂ Corresponds tests tests') :
    Corresponds (op.test siblings v test tests)
      (op.test siblings' w test' tests') := by
  cases op with
  | comparison c => exact corresponds_comparison c h
  | present => exact (corresponds_present h).overElements
  | kind => exact (corresponds_ofKind h).overElements
  | all => exact corresponds_requireAll h hclause hmembers
  | elemMatch => exact hclause.overElements
  | size => exact corresponds_size hclause
  | regex => exact (corresponds_search hsiblings h).overElements
  | options => exact corresponds_ok true
  | expr => exact (corresponds_expr h).overElements
  | and =>
      exact (corresponds_ofList _ h (corresponds_allOf hmembers)).overElements
  | or =>
      exact (corresponds_ofList _ h (corresponds_anyOf hmembers)).overElements
  | not => exact hclause.negation.overElements
  | nor =>
      exact (corresponds_ofList _ h
        (corresponds_anyOf hmembers).negation).overElements

/-! ## Clauses -/

theorem valuesAgree_childAt (key : String)
    (hfound : Option.Rel Reordered found found') :
    ValuesAgree (childAt key found) (childAt key found') := by
  cases hfound with
  | none => exact .ok .none
  | some hxy =>
      refine (Concordant.refl _).bind fun p q hpq => ?_
      subst hpq
      exact .ok (Path.lookup_of_reordered p.segments hxy)

theorem corresponds_condition (key : String)
    (hsiblings : Reordered (.object siblings) (.object siblings'))
    (h : Reordered v w) (hclause : Corresponds test test')
    (hmembers : List.Forall₂ Corresponds tests tests') :
    Corresponds (condition siblings key v test tests)
      (condition siblings' key w test' tests') := by
  intro found found' hfound
  rw [condition, condition]
  split
  · cases Operator.ofName? key with
    | some op =>
        exact corresponds_operator op hsiblings h hclause hmembers _ _ hfound
    | none => exact .error _
  · refine (valuesAgree_childAt key hfound).bind fun a b hab => ?_
    rw [h.isArray_eq, h.isPlainObject_eq]
    split
    · exact hclause _ _ hab
    · exact corresponds_comparison .eq h _ _ hab

/-- All conditions that are asked are fulfilled, or one that is asked is not. -/
theorem holdsFields_cases {fields : List (String × Value)} {b : Bool}
    (h : holdsFields siblings fields found = .ok b) :
    (b = true ∧ ∀ entry ∈ fields,
        condition siblings entry.1 entry.2 (holds entry.2)
        (testsOfMembers entry.2) found = .ok true) ∨
      (b = false ∧ ∃ entry ∈ fields,
          condition siblings entry.1 entry.2 (holds entry.2)
        (testsOfMembers entry.2) found = .ok false) := by
  induction fields with
  | nil =>
      cases h
      exact .inl ⟨rfl, List.forall_mem_nil _⟩
  | cons entry rest ih =>
      rw [holdsFields] at h
      obtain ⟨first, hfirst, h⟩ := bind_eq_ok.mp h
      cases first with
      | false =>
          cases h
          exact .inr ⟨rfl, entry, List.mem_cons_self, hfirst⟩
      | true =>
          rcases ih h with ⟨hb, hall⟩ | ⟨hb, other, hmem, hother⟩
          · exact .inl ⟨hb, List.forall_mem_cons.mpr ⟨hfirst, hall⟩⟩
          · exact .inr ⟨hb, other, List.mem_cons_of_mem _ hmem, hother⟩

/-- Here alone the two runs do not take the same steps. Where one of them has
found a field that is not fulfilled, the other, if it has come to an answer and
has found none, has asked that field too and found it fulfilled. -/
theorem corresponds_holdsFields
    (h : Reordered (.object siblings) (.object siblings'))
    (hconditions : ∀ key x y, Fields.get? key siblings = some x →
      Fields.get? key siblings' = some y →
      Corresponds (condition siblings key x (holds x) (testsOfMembers x))
        (condition siblings' key y (holds y) (testsOfMembers y))) :
    Corresponds (holdsFields siblings siblings)
      (holdsFields siblings' siblings') := by
  intro found found' hfound a b ha hb
  rcases holdsFields_cases ha with ⟨rfl, hall⟩ | ⟨rfl, ⟨key, x⟩, hmem, hfalse⟩
  · rcases holdsFields_cases hb with ⟨rfl, -⟩ | ⟨rfl, ⟨key, y⟩, hmem, hfalse⟩
    · rfl
    · obtain ⟨x, hx, hy⟩ := h.exists_left hmem
      have htrue := hall (key, x) (Fields.mem_of_get? hx)
      exact hconditions key x y hx hy _ _ hfound _ _ htrue hfalse
  · rcases holdsFields_cases hb with ⟨rfl, hall⟩ | ⟨rfl, -⟩
    · obtain ⟨y, hx, hy⟩ := h.exists_right hmem
      have htrue := hall (key, y) (Fields.mem_of_get? hy)
      exact hconditions key x y hx hy _ _ hfound _ _ hfalse htrue
    · rfl

theorem testsOfItems_eq (clauses : List Value) :
    testsOfItems clauses = clauses.map holds := by
  induction clauses with
  | nil => rw [testsOfItems]; rfl
  | cons clause rest ih => rw [testsOfItems, ih]; rfl

/-- A clause as a test, and its elements as tests if it is a list. -/
theorem corresponds_holds (h : Reordered v w) :
    Corresponds (holds v) (holds w) ∧
      List.Forall₂ Corresponds (testsOfMembers v) (testsOfMembers w) := by
  induction h with
  | @array clauses clauses' hlength hitems ih =>
      have hpairs := Value.forall₂_of_getElem? hlength fun i x y hx hy =>
        (ih i x y hx hy).1
      have htests : List.Forall₂ Corresponds (testsOfItems clauses)
          (testsOfItems clauses') := by
        rw [testsOfItems_eq, testsOfItems_eq]
        exact List.forall₂_map_left_iff.mpr
          (List.forall₂_map_right_iff.mpr hpairs)
      exact ⟨corresponds_elementwise htests, htests⟩
  | @object fields fields' hnodup hkeys hfields ih =>
      have hobject : Reordered (.object fields) (.object fields') :=
        .object hnodup hkeys hfields
      refine ⟨?_, .nil⟩
      intro found found' hfound
      rw [holds, holds, hobject.isDate_eq]
      split
      · exact corresponds_literal hobject _ _ hfound
      · refine corresponds_holdsFields hobject ?_ _ _ hfound
        intro key x y hx hy
        obtain ⟨hclause, hmembers⟩ := ih key x y hx hy
        exact corresponds_condition key hobject
          (hfields key x y hx hy) hclause hmembers
  | null => exact ⟨corresponds_literal .null, .nil⟩
  | bool b => exact ⟨corresponds_literal (.bool b), .nil⟩
  | number n => exact ⟨corresponds_literal (.number n), .nil⟩
  | string s => exact ⟨corresponds_literal (.string s), .nil⟩

/-- Whatever the order of the fields is, in the value and in the clause and at
any depth of them: if both runs come to an answer, it is the same one. -/
theorem answer_of_reordered {clause clause' : Value}
    (hclause : Reordered clause clause')
    (hfound : Option.Rel Reordered found found')
    (h : ∃ answer, holds clause found = .ok answer)
    (h' : ∃ answer, holds clause' found' = .ok answer) :
    holds clause found = holds clause' found' := by
  obtain ⟨answer, h⟩ := h
  obtain ⟨answer', h'⟩ := h'
  have heq : answer = answer' :=
    (corresponds_holds hclause).1 found found' hfound _ _ h h'
  rw [h, h', heq]

def size : List (String × Value) :=
  [("grams", .number (.int 40)), ("left", .null)]

/-- A document with a size among its sizes. -/
def offering (size : List (String × Value)) : Value :=
  .object [("sizes", .array [.object size])]

/-- The clause that asks for a size with the given fields. -/
def wanting (size : List (String × Value)) : Value :=
  .object [("sizes", .object [("$elemMatch", .object size)])]

theorem answer_of_reordered_size :
    Reordered (wanting size) (wanting size.reverse) ∧
      Option.Rel Reordered (some (offering size))
        (some (offering size.reverse)) ∧
      (∃ answer, holds (wanting size) (some (offering size)) = .ok answer) ∧
      (∃ answer, holds (wanting size.reverse) (some (offering size.reverse)) =
        .ok answer) ∧
      holds (wanting size) (some (offering size)) =
        holds (wanting size.reverse) (some (offering size.reverse)) := by
  have hsize : Reordered (.object size) (.object size.reverse) := by
    refine Value.reordered_of_perm ?_ size.reverse_perm.symm
    simp [size, Value.WellFormed, Value.FieldsWellFormed, Fields.keys]
  have hsizes : Reordered (.array [.object size])
      (.array [.object size.reverse]) := by
    refine .array rfl fun i x y hx hy => ?_
    cases List.mem_singleton.mp (List.mem_of_getElem? hx)
    cases List.mem_singleton.mp (List.mem_of_getElem? hy)
    exact hsize
  have hclause : Reordered (wanting size) (wanting size.reverse) :=
    (hsize.singleton "$elemMatch").singleton "sizes"
  have hfound : Option.Rel Reordered (some (offering size))
      (some (offering size.reverse)) :=
    .some (hsizes.singleton "sizes")
  have h : holds (wanting size) (some (offering size)) = .ok true := by
    decide +kernel
  have h' : holds (wanting size.reverse) (some (offering size.reverse)) =
      .ok true := by
    decide +kernel
  exact ⟨hclause, hfound, ⟨_, h⟩, ⟨_, h'⟩,
    answer_of_reordered hclause hfound ⟨_, h⟩ ⟨_, h'⟩⟩

-- An order can lead to an answer before an error that another order meets
-- first.
example :
    holds (.object [("sizes", .null), ("$near", .null)])
      (some (offering size)) = .ok false ∧
    holds (.object [("$near", .null), ("sizes", .null)])
      (some (offering size)) =
      .error (.unknownOperator "$near") := by
  decide +kernel

end DocumentStore.Filter
