import DocumentStore.Value.Equality
import DocumentStore.Proofs.Fields

/-!
# Well-formed values

A value is well-formed if no object in it, at any depth, has a key twice. Every
value that a caller can hand over is, since its objects are maps; the list of
fields that stands for a map here could say more, and this is what it does not
say.
-/

namespace DocumentStore.Value

mutual

def WellFormed : Value → Prop
  | .array items => ItemsWellFormed items
  | .object fields => (Fields.keys fields).Nodup ∧ FieldsWellFormed fields
  | .null | .bool _ | .number _ | .string _ => True

def ItemsWellFormed : List Value → Prop
  | [] => True
  | v :: rest => WellFormed v ∧ ItemsWellFormed rest

def FieldsWellFormed : List (String × Value) → Prop
  | [] => True
  | (_, v) :: rest => WellFormed v ∧ FieldsWellFormed rest

end

mutual

def decidableWellFormed : (v : Value) → Decidable v.WellFormed
  | .array items => decidableItemsWellFormed items
  | .object fields =>
      have := decidableFieldsWellFormed fields
      inferInstanceAs
        (Decidable ((Fields.keys fields).Nodup ∧ FieldsWellFormed fields))
  | .null | .bool _ | .number _ | .string _ => .isTrue trivial

def decidableItemsWellFormed :
    (items : List Value) → Decidable (ItemsWellFormed items)
  | [] => .isTrue trivial
  | v :: rest =>
      have := decidableWellFormed v
      have := decidableItemsWellFormed rest
      inferInstanceAs (Decidable (WellFormed v ∧ ItemsWellFormed rest))

def decidableFieldsWellFormed :
    (fields : List (String × Value)) → Decidable (FieldsWellFormed fields)
  | [] => .isTrue trivial
  | (_, v) :: rest =>
      have := decidableWellFormed v
      have := decidableFieldsWellFormed rest
      inferInstanceAs (Decidable (WellFormed v ∧ FieldsWellFormed rest))

end

instance : DecidablePred WellFormed := decidableWellFormed

theorem itemsWellFormed_iff {items : List Value} :
    ItemsWellFormed items ↔ ∀ v ∈ items, v.WellFormed := by
  induction items with
  | nil => simp [ItemsWellFormed]
  | cons v rest ih => simp [ItemsWellFormed, ih]

theorem fieldsWellFormed_iff {fields : List (String × Value)} :
    FieldsWellFormed fields ↔ ∀ entry ∈ fields, entry.2.WellFormed := by
  induction fields with
  | nil => simp [FieldsWellFormed]
  | cons entry rest ih =>
      obtain ⟨k, v⟩ := entry
      simp [FieldsWellFormed, ih]

theorem wellFormed_array_iff {items : List Value} :
    (Value.array items).WellFormed ↔ ∀ v ∈ items, v.WellFormed :=
  itemsWellFormed_iff

theorem wellFormed_object_iff {fields : List (String × Value)} :
    (Value.object fields).WellFormed ↔
      (Fields.keys fields).Nodup ∧ ∀ entry ∈ fields, entry.2.WellFormed :=
  and_congr_right fun _ => fieldsWellFormed_iff

theorem wellFormed_null : Value.null.WellFormed := trivial

theorem wellFormed_bool (b : Bool) : (Value.bool b).WellFormed := trivial

theorem wellFormed_number (n : Number) : (Value.number n).WellFormed := trivial

theorem wellFormed_string (s : String) : (Value.string s).WellFormed := trivial

theorem wellFormed_emptyObject : (Value.object []).WellFormed :=
  wellFormed_object_iff.mpr ⟨List.nodup_nil, by simp⟩

theorem wellFormed_emptyArray : (Value.array []).WellFormed :=
  wellFormed_array_iff.mpr (by simp)

theorem exists_fields_of_isObject {v : Value} (h : v.isObject = true) :
    ∃ fields, v = .object fields := by
  cases v with
  | object fields => exact ⟨fields, rfl⟩
  | null => cases h
  | bool b => cases h
  | number n => cases h
  | string s => cases h
  | array items => cases h

/-! ## Parts of well-formed values -/

theorem WellFormed.get? {fields : List (String × Value)} {key : String}
    {v : Value} (h : (Value.object fields).WellFormed)
    (hget : Fields.get? key fields = some v) :
    v.WellFormed :=
  (wellFormed_object_iff.mp h).2 _ (Fields.mem_of_get? hget)

theorem WellFormed.field? {v w : Value} {key : String} (h : v.WellFormed)
    (hfield : v.field? key = some w) : w.WellFormed := by
  cases v with
  | object fields => exact h.get? hfield
  | null => cases hfield
  | bool b => cases hfield
  | number n => cases hfield
  | string s => cases hfield
  | array items => cases hfield

theorem wellFormed_getD {found : Option Value}
    (h : ∀ v, found = some v → v.WellFormed) :
    (found.getD .null).WellFormed := by
  cases found with
  | none => exact wellFormed_null
  | some v => exact h v rfl

theorem WellFormed.insert {fields : List (String × Value)} {v : Value}
    (key : String) (h : (Value.object fields).WellFormed) (hv : v.WellFormed) :
    (Value.object (Fields.insert key v fields)).WellFormed := by
  obtain ⟨hkeys, hvalues⟩ := wellFormed_object_iff.mp h
  refine wellFormed_object_iff.mpr ⟨Fields.nodup_keys_insert key v hkeys, ?_⟩
  intro entry hentry
  rcases Fields.mem_insert hentry with rfl | hmem
  · exact hv
  · exact hvalues entry hmem

theorem WellFormed.of_sublist {fields more : List (String × Value)}
    (h : (Value.object more).WellFormed) (hsub : fields.Sublist more) :
    (Value.object fields).WellFormed := by
  obtain ⟨hkeys, hvalues⟩ := wellFormed_object_iff.mp h
  exact wellFormed_object_iff.mpr
    ⟨Fields.nodup_keys_of_sublist hsub hkeys,
      fun entry hentry => hvalues entry (hsub.subset hentry)⟩

theorem WellFormed.insertAt {fields : List (String × Value)} {key : String}
    {v : Value} (place : Nat) (h : (Value.object fields).WellFormed)
    (hkey : key ∉ Fields.keys fields) (hv : v.WellFormed) :
    (Value.object (Fields.insertAt place key v fields)).WellFormed := by
  obtain ⟨hkeys, hvalues⟩ := wellFormed_object_iff.mp h
  refine wellFormed_object_iff.mpr ⟨Fields.nodup_keys_insertAt hkey hkeys, ?_⟩
  intro entry hentry
  rcases Fields.mem_insertAt.mp hentry with rfl | hmem
  · exact hv
  · exact hvalues entry hmem

/-! ## The same value -/

theorem number_same_self (n : Number) : n.same n = true := by
  cases n <;> simp [Number.same]

mutual

/-- In an object that has a key twice the second value would not be found. -/
theorem WellFormed.same_self : (v : Value) → v.WellFormed → v.same v = true
  | .null, _ => rfl
  | .bool b, _ => by simp [same]
  | .number n, _ => number_same_self n
  | .string s, _ => by simp [same]
  | .array items, h => by
      rw [same]
      exact sameItems_self items h
  | .object fields, h => by
      have hget : ∀ entry ∈ fields, Fields.get? entry.1 fields = some entry.2 :=
        fun entry hentry => (Fields.get?_eq_some_iff h.1).mpr hentry
      simp [same, sameFields_of_get? fields fields hget h.2]

theorem sameItems_self :
    (items : List Value) → ItemsWellFormed items → sameItems items items = true
  | [], _ => rfl
  | v :: rest, h => by
      rw [sameItems, WellFormed.same_self v h.1, sameItems_self rest h.2]
      rfl

theorem sameFields_of_get? : (fields more : List (String × Value)) →
    (∀ entry ∈ fields, Fields.get? entry.1 more = some entry.2) →
      FieldsWellFormed fields →
    sameFields fields more = true
  | [], _, _, _ => by rw [sameFields]
  | (key, v) :: rest, more, hget, h => by
      rw [sameFields, hget (key, v) List.mem_cons_self]
      have hrest := sameFields_of_get? rest more
        (fun entry hentry => hget entry (List.mem_cons_of_mem _ hentry)) h.2
      simp [WellFormed.same_self v h.1, hrest]

end

/-! ## Documents -/

/-- What can be stored: a well-formed object. -/
structure Storable (v : Value) : Prop where
  wellFormed : v.WellFormed
  isObject : v.isObject = true

/-- What is stored: a well-formed object with an identifier that is not null. -/
structure Identified (v : Value) : Prop extends Storable v where
  hasId : ∃ id, v.field? idKey = some id ∧ id.isNull = false

/-- What is read of a stored document: a well-formed object whose identifier, if
it still has one, is not null. -/
structure Held (v : Value) : Prop extends Storable v where
  idProper : ∀ id, v.field? idKey = some id → id.isNull = false

theorem Identified.held {v : Value} (h : v.Identified) : v.Held := by
  refine ⟨h.toStorable, ?_⟩
  intro id hid
  obtain ⟨found, hfound, hnull⟩ := h.hasId
  rw [hid, Option.some.injEq] at hfound
  rw [hfound]
  exact hnull

end DocumentStore.Value
