import DocumentStore.Proofs.Value.WellFormed

/-!
# How deep values are

A value nests as deep as its deepest part, so a bound on its depth is a bound on
each of its parts. `Fits` bounds the depth of a value that lies inside others,
and asks that it is well-formed besides: that is what a reader with a limit can
give.
-/

namespace DocumentStore.Value

variable {limit height n : Nat} {items : List Value}
  {fields : List (String × Value)}

theorem depthOfItems_le_iff :
    depthOfItems items ≤ n ↔ ∀ v ∈ items, v.depth ≤ n := by
  induction items with
  | nil => simp [depthOfItems]
  | cons v rest ih =>
      rw [depthOfItems, Nat.max_le, ih]
      simp

theorem depthOfFields_le_iff :
    depthOfFields fields ≤ n ↔ ∀ entry ∈ fields, entry.2.depth ≤ n := by
  induction fields with
  | nil => simp [depthOfFields]
  | cons entry rest ih =>
      obtain ⟨key, v⟩ := entry
      rw [depthOfFields, Nat.max_le, ih]
      simp

/-- The value is well-formed, and with `height` containers around it there are
no more than `limit` around each other. -/
def Fits (limit height : Nat) (v : Value) : Prop :=
  v.WellFormed ∧ height + v.depth ≤ limit

theorem room_iff :
    height + (n + 1) ≤ limit ↔ height < limit ∧
      n ≤ limit - (height + 1) := by omega

theorem fits_array_iff : (Value.array items).Fits limit height ↔
    height < limit ∧ ∀ v ∈ items, v.Fits limit (height + 1) := by
  rw [Fits, wellFormed_array_iff, depth, room_iff, depthOfItems_le_iff]
  constructor
  · rintro ⟨hwf, hlt, hdepth⟩
    refine ⟨hlt, fun v hv => ⟨hwf v hv, ?_⟩⟩
    have hle := hdepth v hv
    omega
  · rintro ⟨hlt, hitems⟩
    refine ⟨fun v hv => (hitems v hv).1, hlt, fun v hv => ?_⟩
    have hle := (hitems v hv).2
    omega

theorem fits_object_iff : (Value.object fields).Fits limit height ↔
    height < limit ∧ (Fields.keys fields).Nodup ∧
      ∀ entry ∈ fields, entry.2.Fits limit (height + 1) := by
  rw [Fits, wellFormed_object_iff, depth, room_iff, depthOfFields_le_iff]
  constructor
  · rintro ⟨⟨hkeys, hwf⟩, hlt, hdepth⟩
    refine ⟨hlt, hkeys, fun entry hentry => ⟨hwf entry hentry, ?_⟩⟩
    have hle := hdepth entry hentry
    omega
  · rintro ⟨hlt, hkeys, hfields⟩
    refine ⟨⟨hkeys, fun entry hentry => (hfields entry hentry).1⟩, hlt,
      fun entry hentry => ?_⟩
    have hle := (hfields entry hentry).2
    omega

end DocumentStore.Value
