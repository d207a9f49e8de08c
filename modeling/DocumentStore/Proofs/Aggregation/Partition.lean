import DocumentStore.Aggregation.Group
import DocumentStore.Proofs.Fields
import Mathlib.Data.List.Nodup

/-!
# Groups as a partition

Documents are put into groups one after another, and an index leads from the
text of an identifier to the place of its group. The invariant of this loop says
two things together (`Grouping.Sound`): the index leads to the first group with
a text and to nothing else, and the groups are the classes of the documents so
far (`Partitions`). Neither is kept without the other, for a document that the
index leads astray would end up in two groups, or in a wrong one.

What `Partitions` says of the groups determines them (`Partitions.unique`), and
it makes of their documents a permutation of all documents (`Partitions.perm`).
-/

namespace DocumentStore.Aggregation

variable {id : Value → Value} {docs seen : List Value} {groups : List Group}
  {grouping : Grouping} {doc : Value} {t : String}

/-- The text that tells a group from the others. -/
def Group.text (group : Group) : String := group.id.compact

/-- There is one group for each text, in the order in which the texts first
occur. A group has all documents with its text, in their order, and its
identifier is that of the first of them. -/
structure Partitions (id : Value → Value) (docs : List Value)
    (groups : List Group) : Prop where
  distinct : (groups.map Group.text).Nodup
  order : groups.map Group.text =
    (docs.map fun doc => (id doc).compact).eraseDups
  members : ∀ group ∈ groups, group.docs = docs.filter fun doc =>
    (id doc).compact = group.text
  first : ∀ group ∈ groups, group.docs.head?.map id = some group.id

/-- There is only one list of groups that a list of documents falls into. -/
theorem Partitions.unique {others : List Group} (h : Partitions id docs groups)
    (hothers : Partitions id docs others) : groups = others := by
  have htexts : groups.map Group.text = others.map Group.text :=
    h.order.trans hothers.order.symm
  have hlength : groups.length = others.length := by
    simpa using congrArg List.length htexts
  refine List.ext_getElem hlength fun i hi hi' => ?_
  have htext : groups[i].text = others[i].text := by
    have hget := List.getElem_of_eq htexts (i := i) (by simpa using hi)
    simpa using hget
  have hdocs : groups[i].docs = others[i].docs := by
    rw [h.members _ (List.getElem_mem hi),
      hothers.members _ (List.getElem_mem hi'), htext]
  have hid : groups[i].id = others[i].id := by
    have hfirst := h.first _ (List.getElem_mem hi)
    rw [hdocs, hothers.first _ (List.getElem_mem hi')] at hfirst
    exact (Option.some.inj hfirst).symm
  calc
    groups[i] = ⟨groups[i].id, groups[i].docs⟩ := rfl
    _ = others[i] := by rw [hid, hdocs]

/-- The documents class by class are the documents with a text among the given
ones. -/
theorem flatMap_filter_perm {texts : List String} (text : Value → String)
    (h : texts.Nodup) (docs : List Value) :
    (texts.flatMap fun t => docs.filter fun doc => text doc = t).Perm
      (docs.filter fun doc => text doc ∈ texts) := by
  induction texts with
  | nil => simp
  | cons t rest ih =>
      obtain ⟨hnew, hrest⟩ := List.nodup_cons.mp h
      have hsplit := List.filter_append_perm (fun doc => decide (text doc = t))
        (docs.filter fun doc => text doc ∈ t :: rest)
      have hclass : (docs.filter fun doc => text doc ∈ t :: rest).filter
          (fun doc => text doc = t) =
          docs.filter fun doc => text doc = t := by
        rw [List.filter_filter]
        refine List.filter_congr fun doc _ => ?_
        by_cases heq : text doc = t
        · simp [heq]
        · simp [heq]
      have hothers : (docs.filter fun doc => text doc ∈ t :: rest).filter
          (fun doc => !decide (text doc = t)) = docs.filter fun doc =>
            text doc ∈ rest := by
        rw [List.filter_filter]
        refine List.filter_congr fun doc _ => ?_
        by_cases heq : text doc = t
        · simp [heq, hnew]
        · simp [heq]
      rw [hclass, hothers] at hsplit
      exact ((ih hrest).append_left _).trans hsplit

/-- The documents of the groups, one group after another, are all documents. -/
theorem Partitions.perm (h : Partitions id docs groups) :
    (groups.flatMap Group.docs).Perm docs := by
  have hclasses : groups.flatMap Group.docs =
      (groups.map Group.text).flatMap fun t =>
      docs.filter fun doc => (id doc).compact = t := by
    rw [List.flatMap_map]
    exact List.flatMap_congr fun group hgroup => h.members group hgroup
  have hall :
      (docs.filter fun doc => (id doc).compact ∈ groups.map Group.text) =
        docs := by
    refine List.filter_eq_self.mpr fun doc hdoc => decide_eq_true ?_
    rw [h.order, List.mem_eraseDups]
    exact List.mem_map.mpr ⟨doc, hdoc, rfl⟩
  have hperm :=
    flatMap_filter_perm (fun doc => (id doc).compact) h.distinct docs
  rwa [← hclasses, hall] at hperm

theorem length_flatMap_docs (groups : List Group) :
    (groups.flatMap Group.docs).length =
      (groups.map (·.docs.length)).foldr (· + ·) 0 := by
  induction groups with
  | nil => rfl
  | cons group rest ih =>
      rw [List.flatMap_cons, List.length_append, ih, List.map_cons,
        List.foldr_cons]

/-! ## Adding a document -/

theorem eraseDups_concat (texts : List String) (t : String) :
    (texts ++ [t]).eraseDups =
      if t ∈ texts then texts.eraseDups else texts.eraseDups ++ [t] := by
  rw [List.eraseDups_append]
  split
  · next h => simp [List.removeAll, h]
  · next h => simp [List.removeAll, h, List.eraseDups_cons]

theorem Partitions.mem_iff (h : Partitions id docs groups) :
    t ∈ groups.map Group.text ↔ t ∈ docs.map fun doc => (id doc).compact := by
  rw [h.order, List.mem_eraseDups]

theorem filter_text_eq_nil (h : t ∉ docs.map fun doc => (id doc).compact) :
    (docs.filter fun doc => (id doc).compact = t) = [] := by
  rw [List.filter_eq_nil_iff]
  intro doc hdoc heq
  exact h (List.mem_map.mpr ⟨doc, hdoc, of_decide_eq_true heq⟩)

/-- The groups, where the one with a text is extended. -/
def extendAt (t : String) (doc : Value) (groups : List Group) : List Group :=
  groups.map fun group => if group.text = t then group.extend doc else group

theorem text_extendAt (t : String) (doc : Value) (group : Group) :
    (if group.text = t then group.extend doc else group).text = group.text := by
  split <;> rfl

theorem map_text_extendAt (t : String) (doc : Value) (groups : List Group) :
    (extendAt t doc groups).map Group.text = groups.map Group.text := by
  rw [extendAt, List.map_map]
  exact List.map_congr_left fun group _ => text_extendAt t doc group

theorem extendAt_of_notMem (h : t ∉ groups.map Group.text) :
    extendAt t doc groups = groups := by
  refine (List.map_congr_left fun group hgroup => if_neg fun heq => ?_).trans
    (List.map_id groups)
  exact h (List.mem_map.mpr ⟨group, hgroup, heq⟩)

/-- Extending the first group with a text extends all groups with it, for there
is only one. -/
theorem modify_eq_extendAt {slot : Nat}
    (hdistinct : (groups.map Group.text).Nodup)
    (hslot : (groups.findIdx? fun group => group.text = t) = some slot) :
    groups.modify slot (fun group => group.extend doc) =
      extendAt t doc groups := by
  induction groups generalizing slot with
  | nil => cases hslot
  | cons group rest ih =>
      obtain ⟨hnew, hrest⟩ := List.nodup_cons.mp hdistinct
      rw [List.findIdx?_cons] at hslot
      by_cases htext : group.text = t
      · rw [decide_eq_true htext, if_pos rfl] at hslot
        cases hslot
        have hstay : extendAt t doc rest = rest :=
          extendAt_of_notMem (htext ▸ hnew)
        rw [List.modify_zero_cons, extendAt, List.map_cons, if_pos htext]
        exact congrArg _ hstay.symm
      · rw [decide_eq_false htext, if_neg Bool.false_ne_true,
            Option.map_eq_some_iff] at hslot
        obtain ⟨slot, hslot, rfl⟩ := hslot
        rw [List.modify_succ_cons, ih hrest hslot, extendAt, extendAt,
          List.map_cons, if_neg htext]

/-- A document with a text that is there already extends the group with this
text. -/
theorem Partitions.extendAt (h : Partitions id seen groups)
    (hold : (id doc).compact ∈ groups.map Group.text) :
    Partitions id (seen ++ [doc]) (extendAt (id doc).compact doc groups) := by
  refine ⟨?_, ?_, ?_, ?_⟩
  · rw [map_text_extendAt]
    exact h.distinct
  · rw [map_text_extendAt, List.map_append, List.map_singleton,
      eraseDups_concat, if_pos (h.mem_iff.mp hold)]
    exact h.order
  · intro group hgroup
    obtain ⟨old, hmem, rfl⟩ := List.mem_map.mp hgroup
    rw [text_extendAt, List.filter_append, ← h.members old hmem]
    split
    · next heq => simp [Group.extend, heq]
    · next hne => simp [Ne.symm hne]
  · intro group hgroup
    obtain ⟨old, hmem, rfl⟩ := List.mem_map.mp hgroup
    have hfirst := h.first old hmem
    split
    · rw [Group.extend, List.head?_append]
      cases hhead : old.docs.head? with
      | none =>
          rw [hhead] at hfirst
          cases hfirst
      | some first =>
          rw [hhead] at hfirst
          exact hfirst
    · exact hfirst

/-- A document with a new text makes a new group. -/
theorem Partitions.concat (h : Partitions id seen groups)
    (hnew : (id doc).compact ∉ groups.map Group.text) :
    Partitions id (seen ++ [doc]) (groups ++ [⟨id doc, [doc]⟩]) := by
  have hunseen : (id doc).compact ∉ seen.map fun doc => (id doc).compact :=
    fun hmem => hnew (h.mem_iff.mpr hmem)
  have htexts : (groups ++ [({ id := id doc, docs := [doc] } : Group)]).map
      Group.text =
      groups.map Group.text ++ [(id doc).compact] := List.map_append
  refine ⟨?_, ?_, ?_, ?_⟩
  · rw [htexts, List.nodup_append]
    refine ⟨h.distinct, List.nodup_cons.mpr ⟨nofun, List.nodup_nil⟩, ?_⟩
    rintro text htext other hother rfl
    exact hnew (List.mem_singleton.mp hother ▸ htext)
  · rw [htexts, List.map_append, List.map_singleton, eraseDups_concat,
      if_neg hunseen, h.order]
  · intro group hgroup
    rw [List.filter_append]
    rcases List.mem_append.mp hgroup with hgroup | hgroup
    · have hne : (id doc).compact ≠ group.text :=
        fun heq => hnew (List.mem_map.mpr ⟨group, hgroup, heq.symm⟩)
      simp [hne, h.members group hgroup]
    · rw [List.mem_singleton] at hgroup
      subst hgroup
      rw [Group.text, filter_text_eq_nil hunseen, List.filter_cons,
        decide_eq_true rfl]
      rfl
  · intro group hgroup
    rcases List.mem_append.mp hgroup with hgroup | hgroup
    · exact h.first group hgroup
    · rw [List.mem_singleton] at hgroup
      subst hgroup
      rfl

/-! ## The loop -/

namespace Grouping

/-- The index leads to the group with a text, and the groups are the classes of
the documents. -/
structure Sound (id : Value → Value) (docs : List Value)
    (grouping : Grouping) : Prop where
  slots : ∀ t, Fields.get? t grouping.slots =
    grouping.groups.findIdx? fun group => group.text = t
  partitions : Partitions id docs grouping.groups

theorem sound_empty (id : Value → Value) : Sound id [] empty :=
  ⟨fun _ => rfl, List.nodup_nil, rfl, nofun, nofun⟩

theorem findIdx?_text (t : String) (groups : List Group) :
    (groups.findIdx? fun group => group.text = t) =
      (groups.map Group.text).findIdx? (· = t) := by
  rw [List.findIdx?_map]
  rfl

theorem Sound.add (h : Sound id seen grouping) (doc : Value) :
    Sound id (seen ++ [doc]) (grouping.add (id doc) doc) := by
  rw [Grouping.add, IdIndex.find?, h.slots]
  cases hslot : grouping.groups.findIdx? fun group =>
    group.text = (id doc).compact with
  | some slot =>
      have hold : (id doc).compact ∈ grouping.groups.map Group.text := by
        obtain ⟨hlt, htext, -⟩ := List.findIdx?_eq_some_iff_getElem.mp hslot
        exact List.mem_map.mpr ⟨_, List.getElem_mem hlt,
          of_decide_eq_true htext⟩
      dsimp only
      rw [modify_eq_extendAt h.partitions.distinct hslot]
      -- No text changes, so the index leads where it has to lead without being
      -- touched.
      refine ⟨fun t => ?_, h.partitions.extendAt hold⟩
      rw [findIdx?_text, map_text_extendAt, ← findIdx?_text]
      exact h.slots t
  | none =>
      have hnew : (id doc).compact ∉ grouping.groups.map Group.text := by
        rw [List.mem_map]
        rintro ⟨group, hgroup, htext⟩
        exact of_decide_eq_false
          (List.findIdx?_eq_none_iff.mp hslot group hgroup) htext
      refine ⟨fun t => ?_, h.partitions.concat hnew⟩
      dsimp only [IdIndex.enter]
      rw [List.findIdx?_append, List.findIdx?_singleton, ← h.slots]
      by_cases heq : (id doc).compact = t
      · subst heq
        rw [Fields.get?_insert_self, h.slots, hslot]
        simp [Group.text]
      · rw [Fields.get?_insert_of_ne heq]
        simp [Group.text, heq]

theorem Sound.foldl (h : Sound id seen grouping) (docs : List Value) :
    Sound id (seen ++ docs)
      (docs.foldl (fun g doc => g.add (id doc) doc) grouping) := by
  induction docs generalizing seen grouping with
  | nil => rwa [List.append_nil]
  | cons doc rest ih =>
      have hrest := ih (h.add doc)
      rwa [List.append_assoc] at hrest

end Grouping

/-- The groups of documents by their identifiers. -/
def grouped (id : Value → Value) (docs : List Value) : List Group :=
  (docs.foldl (fun g doc => g.add (id doc) doc) Grouping.empty).groups

theorem partitions_grouped (id : Value → Value) (docs : List Value) :
    Partitions id docs (grouped id docs) :=
  ((Grouping.sound_empty id).foldl docs).partitions

end DocumentStore.Aggregation
