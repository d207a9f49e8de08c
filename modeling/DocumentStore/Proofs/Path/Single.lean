import DocumentStore.Proofs.Path.Access
import DocumentStore.Proofs.Path.Grammar

/-!
# Paths of one segment

A key without dots and opening brackets is a path of one segment, whatever else
it holds. The segment may be an index, and then its text is the key again
(`text_ofPlain`), so in an object the path leads to the field with that key and
to nothing else: there it finds, assigns and removes (`key_leads_to_field`).
-/

namespace DocumentStore.Path

variable {key : String} {path : Path} {v : Value}

/-- A key is a path of one segment: it has neither dots nor opening brackets. -/
def IsSingle (key : String) : Prop := '.' ∉ key.toList ∧ '[' ∉ key.toList

instance (key : String) : Decidable (IsSingle key) :=
  inferInstanceAs (Decidable ('.' ∉ key.toList ∧ '[' ∉ key.toList))

theorem text_ofPlain (text : List Char) :
    (Segment.ofPlain text).text = String.ofList text := by
  have hstands := stands_ofPlain text
  generalize Segment.ofPlain text = segment at hstands ⊢
  cases hstands with
  | index i hi => rfl
  | key text hno => rfl

theorem pathText_of_isSingle (hkey : IsSingle key) (hne : key.toList ≠ []) :
    PathText key.toList [Segment.ofPlain key.toList] := by
  have hplain : IsPlain key.toList := by
    refine ⟨hne, ?_⟩
    intro c hc
    exact ⟨fun h => hkey.1 (h ▸ hc), fun h => hkey.2 (h ▸ hc)⟩
  have hsingle : PathText (key.toList ++ []) [Segment.ofPlain key.toList] :=
    .unit (.plain hplain (stands_ofPlain _) .nil)
  rwa [List.append_nil] at hsingle

theorem exists_parse_of_isSingle (hkey : IsSingle key) (hne : key.toList ≠ []) :
    ∃ path, parse key = .ok path :=
  ⟨⟨[Segment.ofPlain key.toList], List.cons_ne_nil _ _⟩,
    parse_eq_ok_iff.mpr (pathText_of_isSingle hkey hne)⟩

theorem segments_of_isSingle (hkey : IsSingle key)
    (hpath : parse key = .ok path) :
    path.segments = [Segment.ofPlain key.toList] := by
  have hread := parse_eq_ok_iff.mp hpath
  have hsingle := pathText_of_isSingle hkey (ne_nil_of_pathText_text hread)
  rw [← scan_eq_ok_iff] at hread hsingle
  rw [hsingle] at hread
  exact (Except.ok.inj hread).symm

theorem get_of_isSingle (hkey : IsSingle key) (hpath : parse key = .ok path)
    (fields : List (String × Value)) :
    path.get (.object fields) = Fields.get? key fields := by
  rw [get, segments_of_isSingle hkey hpath, lookup, child?, text_ofPlain,
    String.ofList_toList]
  cases Fields.get? key fields <;> rfl

theorem set_of_isSingle (hkey : IsSingle key) (hpath : parse key = .ok path)
    (v : Value) (fields : List (String × Value)) :
    path.set v (.object fields) =
      .ok (.object (Fields.insert key v fields)) := by
  rw [set_eq_ok_iff, segments_of_isSingle hkey hpath, assign_object,
    text_ofPlain, String.ofList_toList]
  rfl

theorem remove_of_isSingle (hkey : IsSingle key) (hpath : parse key = .ok path)
    (fields : List (String × Value)) :
    path.remove (.object fields) =
      (Fields.get? key fields, .object (Fields.erase key fields)) := by
  rw [remove, get_of_isSingle hkey hpath, segments_of_isSingle hkey hpath,
    erase, text_ofPlain, String.ofList_toList]

/-- A plain segment has its own text for a key, whether it stands for an index
or not. So in an object, whose keys are distinct, a key without dots and opening
brackets leads to its field: this is the field that is found, the one that is
assigned, in its place or else last, and the only one that a removal takes
away. -/
theorem key_leads_to_field :
    (∀ raw : String, (Segment.ofPlain raw.toList).text = raw) ∧
      ∀ key : String, key ≠ "" → IsSingle key → ∃ path, parse key = .ok path ∧
        ∀ fields : List (String × Value), (Fields.keys fields).Nodup →
          (∀ v, path.get (.object fields) = some v ↔ (key, v) ∈ fields) ∧
          (∀ x, path.set x (.object fields) = .ok (.object
            (if key ∈ Fields.keys fields then
              fields.map fun field => if field.1 = key then (key, x) else field
            else fields ++ [(key, x)]))) ∧
          path.remove (.object fields) =
            (path.get (.object fields),
              .object (fields.filter fun field => field.1 ≠ key)) := by
  refine ⟨fun raw => (text_ofPlain raw.toList).trans String.ofList_toList, ?_⟩
  intro key hne hkey
  obtain ⟨path, hpath⟩ := exists_parse_of_isSingle hkey fun h =>
    hne (String.toList_eq_nil_iff.mp h)
  refine ⟨path, hpath, fun fields hfields => ⟨fun v => ?_, fun x => ?_, ?_⟩⟩
  · rw [get_of_isSingle hkey hpath, Fields.get?_eq_some_iff hfields]
  · rw [set_of_isSingle hkey hpath]
    split
    · next hmem => rw [Fields.insert_eq_map hmem hfields]
    · next hmem => rw [Fields.insert_of_notMem hmem]
  · rw [remove_of_isSingle hkey hpath, get_of_isSingle hkey hpath,
      Fields.erase_eq_filter hfields]

/-- An object whose keys look like numbers. Only the second is the decimal of an
index. -/
def numbered : List (String × Value) :=
  [("007", .bool true), ("0", .bool false), ("18446744073709551616", .null),
    ("+1", .null)]

theorem key_leads_to_field_numbered :
    (Fields.keys numbered).Nodup ∧ "0" ≠ "" ∧ IsSingle "0" ∧
      ∃ path, parse "0" = .ok path ∧ path.segments = [.index 0] ∧
        path.get (.object numbered) = some (.bool false) ∧
        path.set .null (.object numbered) =
          .ok (.object [("007", .bool true), ("0", .null),
            ("18446744073709551616", .null), ("+1", .null)]) ∧
        path.remove (.object numbered) =
          (some (.bool false),
            .object [("007", .bool true), ("18446744073709551616", .null),
              ("+1", .null)]) := by
  have hnodup : (Fields.keys numbered).Nodup := by decide +kernel
  have hsingle : IsSingle "0" := by decide +kernel
  obtain ⟨path, hpath, hfield⟩ := key_leads_to_field.2 "0" (by decide) hsingle
  obtain ⟨hget, hset, hremove⟩ := hfield numbered hnodup
  have hfound : path.get (.object numbered) = some (.bool false) :=
    (hget _).mpr (by simp [numbered])
  rw [hfound] at hremove
  exact ⟨hnodup, by decide, hsingle, path, hpath,
    segments_of_isSingle hsingle hpath, hfound,
    (hset .null).trans (by decide +kernel), hremove.trans (by decide +kernel)⟩

/-- The least decimal that is out of range for an index. -/
example :
    Segment.ofPlain "18446744073709551616".toList =
      .key "18446744073709551616" := by
  decide +kernel

end DocumentStore.Path
