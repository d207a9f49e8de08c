import DocumentStore.Aggregation.Accumulator
import DocumentStore.Proofs.Path.Access
import DocumentStore.Proofs.Update

/-!
# Results of expressions

An expression is a value, and so is its result: if the expression and the
document are well-formed, it is (`wellFormed_eval`). Operators give numbers,
strings and truth values, or one of their arguments; a field is a part of the
document; and what is computed part by part has the keys of the expression, but
for those that have no result.
-/

namespace DocumentStore

namespace Expression

variable {doc v r : Value} {name : String} {op : Operator}
  {arguments results : List (Option Value)}
  {result : Option Value} {fields found : List (String × Value)}

/-! ## Operators -/

theorem wellFormed_accumulate {f : Double → Double → Option Double}
    {sofar : Option Double} (h : accumulate name f sofar arguments = .ok r) :
    r.WellFormed := by
  induction arguments generalizing sofar with
  | nil =>
      cases h
      exact Value.wellFormed_ofDouble? sofar
  | cons argument rest ih =>
      obtain ⟨x, -, h⟩ := bind_eq_ok.mp h
      cases x with
      | none =>
          cases h
          exact Value.wellFormed_null
      | some x => exact ih h

theorem wellFormed_concat {sofar : String}
    (h : Expression.concat sofar arguments = .ok r) :
    r.WellFormed := by
  fun_induction Expression.concat sofar arguments with
  | case1 sofar =>
      cases h
      exact Value.wellFormed_string sofar
  | case2 | case3 =>
      cases h
      exact Value.wellFormed_null
  | case4 sofar s rest ih => exact ih h
  | case5 => cases h

theorem wellFormed_onNumbers {f : Double → Double → Value}
    (hf : ∀ a b, (f a b).WellFormed) (h : onNumbers name f arguments = .ok r) :
    r.WellFormed := by
  obtain ⟨⟨x, y⟩, -, h⟩ := bind_eq_ok.mp h
  obtain ⟨a, -, h⟩ := bind_eq_ok.mp h
  obtain ⟨b, -, h⟩ := bind_eq_ok.mp h
  split at h
  · cases h
    exact hf _ _
  · cases h
    exact Value.wellFormed_null

theorem wellFormed_inOrder {accept : Ordering → Bool}
    (h : inOrder accept arguments = .ok r) :
    r.WellFormed := by
  obtain ⟨⟨x, y⟩, -, h⟩ := bind_eq_ok.mp h
  cases h
  exact Value.wellFormed_bool _

theorem wellFormed_firstPresent
    (harguments : ∀ v, some v ∈ arguments → v.WellFormed) :
    (firstPresent arguments).WellFormed := by
  refine Value.wellFormed_getD fun v hv => harguments v ?_
  obtain ⟨argument, hmem, heq⟩ :=
    List.mem_filterMap.mp (List.mem_of_find?_eq_some hv)
  exact heq ▸ hmem

theorem wellFormed_apply (harguments : ∀ v, some v ∈ arguments → v.WellFormed)
    (h : op.apply arguments = .ok r) : r.WellFormed := by
  cases op with
  | add => exact wellFormed_accumulate h
  | multiply => exact wellFormed_accumulate h
  | subtract =>
      exact wellFormed_onNumbers (fun a b => Value.wellFormed_ofDouble? _) h
  | divide =>
      exact wellFormed_onNumbers (fun a b => Value.wellFormed_ofDouble? _) h
  | concat => exact wellFormed_concat h
  | eq | ne =>
      obtain ⟨⟨x, y⟩, -, h⟩ := bind_eq_ok.mp h
      cases h
      exact Value.wellFormed_bool _
  | gt | gte | lt | lte =>
      rw [Operator.apply] at h
      exact wellFormed_inOrder h
  | and | or | not =>
      cases h
      exact Value.wellFormed_bool _
  | ifNull =>
      cases h
      exact wellFormed_firstPresent harguments

/-! ## Fields -/

theorem wellFormed_ofText {text : String} (hdoc : doc.WellFormed)
    (h : ofText doc text = .ok (some r)) : r.WellFormed := by
  rw [ofText] at h
  split at h
  · obtain ⟨path, -, h⟩ := bind_eq_ok.mp h
    exact Update.wellFormed_get hdoc (Except.ok.inj h)
  · cases h
    exact Value.wellFormed_string text

theorem wellFormed_ofKey {key : String} (hdoc : doc.WellFormed)
    (h : ofKey doc key = .ok (some r)) : r.WellFormed := by
  obtain ⟨path, -, h⟩ := bind_eq_ok.mp h
  exact Update.wellFormed_get hdoc (Except.ok.inj h)

/-! ## Expressions -/

theorem wellFormed_putField {key : String} {v : Value}
    (hkeys : (Fields.keys ((key, v) :: fields)).Nodup)
    (hresult : ∀ r, result = some r → r.WellFormed)
    (hfound : (Value.object found).WellFormed)
    (hsub : (Fields.keys found).Sublist (Fields.keys fields)) :
    (Value.object (putField key result found)).WellFormed ∧
      (Fields.keys (putField key result found)).Sublist
        (Fields.keys ((key, v) :: fields)) := by
  rw [Fields.keys_cons] at hkeys ⊢
  obtain ⟨hnodup, hvalues⟩ := Value.wellFormed_object_iff.mp hfound
  cases result with
  | none => exact ⟨hfound, hsub.cons key⟩
  | some r =>
      rw [putField, Fields.keys_cons]
      refine ⟨Value.wellFormed_object_iff.mpr ⟨?_, ?_⟩, hsub.cons_cons key⟩
      · exact (hsub.cons_cons key).nodup hkeys
      · exact List.forall_mem_cons.mpr ⟨hresult r rfl, hvalues⟩

/-- The items of a list of arguments are computed as those of an array are. -/
theorem wellFormed_evalArguments (heval : ∀ {result}, eval doc v = .ok result →
      ∀ r, result = some r → r.WellFormed) (h :
      evalArguments doc v = .ok results) :
    ∀ r, some r ∈ results → r.WellFormed := by
  intro r hr
  cases v with
  | array items =>
      rw [evalArguments] at h
      have hlist : eval doc (.array items) =
          .ok (some (.array (results.map fun result => result.getD .null))) := by
        rw [eval, h]
        rfl
      have hwf := Value.wellFormed_array_iff.mp (heval hlist _ rfl)
      exact hwf r (List.mem_map.mpr ⟨some r, hr, rfl⟩)
  | _ =>
      rw [evalArguments] at h
      · obtain ⟨result, hresult, h⟩ := bind_eq_ok.mp h
        cases h
        exact heval hresult r (List.mem_singleton.mp hr).symm
      · intro items heq
        cases heq

mutual

theorem wellFormed_eval (hdoc : doc.WellFormed) :
    (expr : Value) → expr.WellFormed →
    ∀ {result}, eval doc expr = .ok result → ∀ r, result = some r → r.WellFormed
  | .string text, _, result, h, r, hr => by
      rw [eval, hr] at h
      exact wellFormed_ofText hdoc h
  | .array items, hexpr, result, h, r, hr => by
      rw [eval] at h
      obtain ⟨results, hresults, h⟩ := bind_eq_ok.mp h
      rw [hr] at h
      cases h
      refine Value.wellFormed_array_iff.mpr
        (List.forall_mem_map.mpr fun item hitem => ?_)
      exact Value.wellFormed_getD fun v hv =>
        wellFormed_evalItems hdoc items hexpr hresults v (hv ▸ hitem)
  | .object [(key, v)], hexpr, result, h, r, hr => by
      obtain ⟨hkeys, hv, -⟩ := hexpr
      rw [eval] at h
      split at h
      · rw [hr] at h
        cases h
        exact ⟨hkeys, hv, trivial⟩
      · split at h
        · obtain ⟨arguments, harguments, h⟩ := bind_eq_ok.mp h
          obtain ⟨w, hw, h⟩ := bind_eq_ok.mp h
          rw [hr] at h
          cases h
          have hall := wellFormed_evalArguments
            (wellFormed_eval hdoc v hv) harguments
          exact wellFormed_apply hall hw
        · split at h
          · rw [hr] at h
            exact wellFormed_ofKey hdoc h
          · split at h
            · exact wellFormed_eval hdoc v hv h r hr
            · obtain ⟨part, hpart, h⟩ := bind_eq_ok.mp h
              rw [hr] at h
              cases h
              exact (wellFormed_putField hkeys (wellFormed_eval hdoc v hv hpart)
                Value.wellFormed_emptyObject .slnil).1
  | .object [], _, result, h, r, hr => by
      rw [eval, evalFields, hr] at h
      · cases h
        exact Value.wellFormed_emptyObject
      · nofun
  | .object (first :: second :: rest), hexpr, result, h, r, hr => by
      rw [eval] at h
      · obtain ⟨found, hfound, h⟩ := bind_eq_ok.mp h
        rw [hr] at h
        cases h
        exact (wellFormed_evalFields hdoc _ hexpr.1 hexpr.2 hfound).1
      · nofun
  | .null, _, result, h, r, hr => by
      rw [eval, hr] at h
      cases h
      exact Value.wellFormed_null
  | .bool b, _, result, h, r, hr => by
      rw [eval, hr] at h
      cases h
      exact Value.wellFormed_bool b
  | .number n, _, result, h, r, hr => by
      rw [eval, hr] at h
      cases h
      exact Value.wellFormed_number n

theorem wellFormed_evalItems (hdoc : doc.WellFormed) : (items : List Value) →
    Value.ItemsWellFormed items →
    ∀ {results}, evalItems doc items = .ok results → ∀ r,
      some r ∈ results → r.WellFormed
  | [], _, results, h, r, hr => by
      rw [evalItems] at h
      cases h
      cases hr
  | v :: rest, hitems, results, h, r, hr => by
      rw [evalItems] at h
      obtain ⟨result, hresult, h⟩ := bind_eq_ok.mp h
      obtain ⟨others, hothers, h⟩ := bind_eq_ok.mp h
      cases h
      rcases List.mem_cons.mp hr with heq | hmem
      · exact wellFormed_eval hdoc v hitems.1 hresult r heq.symm
      · exact wellFormed_evalItems hdoc rest hitems.2 hothers r hmem

theorem wellFormed_evalFields (hdoc : doc.WellFormed) :
    (fields : List (String × Value)) →
    (Fields.keys fields).Nodup → Value.FieldsWellFormed fields →
    ∀ {found}, evalFields doc fields = .ok found →
      (Value.object found).WellFormed ∧
        (Fields.keys found).Sublist (Fields.keys fields)
  | [], _, _, found, h => by
      rw [evalFields] at h
      cases h
      exact ⟨Value.wellFormed_emptyObject, .slnil⟩
  | (key, v) :: rest, hkeys, hfields, found, h => by
      rw [evalFields] at h
      obtain ⟨result, hresult, h⟩ := bind_eq_ok.mp h
      obtain ⟨others, hothers, h⟩ := bind_eq_ok.mp h
      cases h
      have hrest := (List.nodup_cons.mp hkeys).2
      obtain ⟨hwf, hsub⟩ :=
        wellFormed_evalFields hdoc rest hrest hfields.2 hothers
      exact wellFormed_putField hkeys
        (wellFormed_eval hdoc v hfields.1 hresult) hwf hsub

end

end Expression

end DocumentStore
