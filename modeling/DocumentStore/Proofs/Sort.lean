import DocumentStore.Proofs.Aggregation.Group
import DocumentStore.Proofs.Value.Order
import Mathlib.Data.List.Induction

/-!
# Sorting by several keys

A sort by several keys sorts all documents once by each key, from the first key
to the last. It is one sort all the same, by the last key first and by the first
key last: each of the sorts is stable, so where its key finds documents equal it
leaves them in the order into which the sorts before have put them.

`SortsStably` says what a stable sort comes to without saying how it is done,
and there is only one list of which it holds (`SortsStably.unique`). Two sorts,
one after the other, are one by the lexicographic order of both
(`SortsStably.after`). The keys follow by induction from the last one, which is
the one that is looked at first.
-/

namespace DocumentStore

open Std (TransCmp OrientedCmp ReflCmp)

/-! ## Stable sorts -/

section Stable

variable {α : Type} {cmp first second : α → α → Ordering}
  {xs ys zs : List α} {a b : α}

/-- The items that an order does not tell from one item, as they stand. -/
def tied (cmp : α → α → Ordering) (a : α) (xs : List α) : List α :=
  xs.filter fun b => cmp a b = .eq

theorem tied_cons_of_eq (h : cmp a b = .eq) :
    tied cmp a (b :: xs) = b :: tied cmp a xs :=
  List.filter_cons_of_pos (decide_eq_true h)

theorem tied_cons_of_ne (h : cmp a b ≠ .eq) :
    tied cmp a (b :: xs) = tied cmp a xs :=
  List.filter_cons_of_neg (by simpa using h)

theorem tied_compareLex (a : α) (xs : List α) :
    tied (compareLex second first) a xs = tied first a (tied second a xs) := by
  rw [tied, tied, tied, List.filter_filter]
  refine List.filter_congr fun b _ => ?_
  rw [compareLex, Bool.and_comm, ← Bool.decide_and, decide_eq_decide,
    Ordering.then_eq_eq]

theorem tied_comm (a : α) (xs : List α) :
    tied first a (tied second a xs) = tied second a (tied first a xs) := by
  rw [tied, tied, tied, tied, List.filter_comm]

/-- One list is another one in order. Items that are equal by the order stand as
they stood. -/
structure SortsStably (cmp : α → α → Ordering) (xs ys : List α) : Prop where
  perm : ys.Perm xs
  ordered : ys.Pairwise fun a b => cmp a b ≠ .gt
  ties : ∀ a, tied cmp a ys = tied cmp a xs

theorem ne_gt_of_eq (h : cmp a b = .eq) : cmp a b ≠ .gt := by
  rw [h]
  exact Ordering.noConfusion

namespace SortsStably

/-- By an order that tells nothing apart, any list is sorted. -/
theorem refl (xs : List α) : SortsStably (fun _ _ => .eq) xs xs :=
  ⟨.refl xs, List.pairwise_of_forall fun _ _ => Ordering.noConfusion,
    fun _ => rfl⟩

theorem mergeSort [TransCmp cmp] (xs : List α) :
    SortsStably cmp xs (xs.mergeSort fun a b => cmp a b != .gt) := by
  have htrans : ∀ a b c, (cmp a b != .gt) = true → (cmp b c != .gt) = true →
      (cmp a c != .gt) = true := by
    intro a b c hab hbc
    simp only [bne_iff_ne, ← Ordering.isLE_iff_ne_gt] at hab hbc ⊢
    exact TransCmp.isLE_trans hab hbc
  have htotal : ∀ a b, (cmp a b != .gt || cmp b a != .gt) = true := by
    intro a b
    have hswap : cmp b a = (cmp a b).swap := OrientedCmp.eq_swap
    rw [hswap]
    cases cmp a b <;> rfl
  have hperm := List.mergeSort_perm xs fun a b => cmp a b != .gt
  refine ⟨hperm, ?_, fun a => ?_⟩
  · exact (List.pairwise_mergeSort htrans htotal xs).imp fun h =>
      bne_iff_ne.mp h
  · -- What is equal to one item is in order as it stands, so the sort keeps it
    -- as a sublist.
    have htied : (tied cmp a xs).Pairwise fun b c =>
        (cmp b c != .gt) = true := by
      refine List.pairwise_of_forall_mem_list fun b hb c hc =>
        bne_iff_ne.mpr (ne_gt_of_eq ?_)
      have hab := of_decide_eq_true (List.mem_filter.mp hb).2
      have hac := of_decide_eq_true (List.mem_filter.mp hc).2
      rw [← TransCmp.congr_left hab, hac]
    have hsub := List.sublist_mergeSort htrans htotal htied List.filter_sublist
    have hkept := hsub.filter fun b => cmp a b = .eq
    rw [tied, List.filter_filter] at hkept
    simp only [Bool.and_self] at hkept
    exact (hkept.eq_of_length (hperm.filter _).length_eq.symm).symm

/-- Two sorts make one. The order of the second decides, and that of the first
where the second finds no difference. -/
theorem after [TransCmp second] (h' : SortsStably second ys zs)
    (h : SortsStably first xs ys) :
    SortsStably (compareLex second first) xs zs := by
  refine ⟨h'.perm.trans h.perm, ?_, fun a => ?_⟩
  · rw [List.pairwise_iff_forall_sublist]
    intro a b hsub
    have hsecond := List.pairwise_iff_forall_sublist.mp h'.ordered hsub
    rw [compareLex]
    cases hab : second a b with
    | lt => exact Ordering.noConfusion
    | gt => exact absurd hab hsecond
    | eq =>
        -- The second sort has not told them apart, so they stand as the first
        -- one left them.
        have htied : (tied second a [a, b]).Sublist (tied second a zs) :=
          hsub.filter _
        rw [tied_cons_of_eq ReflCmp.compare_self, tied_cons_of_eq hab,
          h'.ties] at htied
        exact List.pairwise_iff_forall_sublist.mp h.ordered
          (htied.trans List.filter_sublist)
  · rw [tied_compareLex, tied_compareLex, h'.ties, tied_comm, h.ties, tied_comm]

/-- There is only one list that is another one in order. -/
theorem unique [TransCmp cmp] (h : SortsStably cmp xs ys)
    (h' : SortsStably cmp xs zs) :
    ys = zs := by
  have hperm := h.perm.trans h'.perm.symm
  have hties := fun a => (h.ties a).trans (h'.ties a).symm
  have hy := h.ordered
  have hz := h'.ordered
  clear h h'
  induction ys generalizing zs with
  | nil => exact hperm.nil_eq
  | cons y ys ih =>
      cases zs with
      | nil => exact absurd hperm.length_eq (by simp)
      | cons z zs =>
          obtain ⟨hfirst, hys⟩ := List.pairwise_cons.mp hy
          obtain ⟨hfirst', hzs⟩ := List.pairwise_cons.mp hz
          have hle : cmp y z ≠ .gt := by
            rcases List.mem_cons.mp (hperm.mem_iff.mpr List.mem_cons_self) with
              rfl | hmem
            · exact ne_gt_of_eq ReflCmp.compare_self
            · exact hfirst z hmem
          have hge : cmp z y ≠ .gt := by
            rcases List.mem_cons.mp (hperm.mem_iff.mp List.mem_cons_self) with
              rfl | hmem
            · exact ne_gt_of_eq ReflCmp.compare_self
            · exact hfirst' y hmem
          have heq : cmp y z = .eq := by
            have hswap : cmp z y = (cmp y z).swap := OrientedCmp.eq_swap
            rw [hswap] at hge
            cases hyz : cmp y z with
            | eq => rfl
            | lt =>
                rw [hyz] at hge
                exact absurd rfl hge
            | gt => exact absurd hyz hle
          have hblock := hties y
          rw [tied_cons_of_eq ReflCmp.compare_self,
            tied_cons_of_eq heq] at hblock
          obtain ⟨rfl, -⟩ := List.cons.inj hblock
          rw [ih hperm.cons_inv (fun a => ?_) hys hzs]
          have hrest := hties a
          by_cases ha : cmp a y = .eq
          · rw [tied_cons_of_eq ha, tied_cons_of_eq ha] at hrest
            exact (List.cons.inj hrest).2
          · rwa [tied_cons_of_ne ha, tied_cons_of_ne ha] at hrest

/-- It is enough to look at the ties of the items there are. -/
theorem iff_of_mem [TransCmp cmp] : SortsStably cmp xs ys ↔ ys.Perm xs ∧
    (ys.Pairwise fun a b => cmp a b ≠ .gt) ∧
    ∀ a ∈ xs, tied cmp a ys = tied cmp a xs := by
  refine ⟨fun h => ⟨h.perm, h.ordered, fun a _ => h.ties a⟩, ?_⟩
  rintro ⟨hperm, hordered, hties⟩
  refine ⟨hperm, hordered, fun a => ?_⟩
  by_cases ha : ∃ b ∈ xs, cmp a b = .eq
  · obtain ⟨b, hb, hab⟩ := ha
    have hsame : ∀ items : List α, tied cmp a items = tied cmp b items := by
      intro items
      rw [tied, tied]
      exact List.filter_congr fun c _ => by rw [TransCmp.congr_left hab]
    rw [hsame, hsame, hties b hb]
  · have hnone : ∀ b ∈ xs, ¬ decide (cmp a b = .eq) = true :=
      fun b hb hab => ha ⟨b, hb, of_decide_eq_true hab⟩
    rw [tied, tied, List.filter_eq_nil_iff.mpr hnone, List.filter_eq_nil_iff]
    exact fun b hb => hnone b (hperm.mem_iff.mp hb)

instance [TransCmp cmp] [DecidableEq α] : Decidable (SortsStably cmp xs ys) :=
  decidable_of_iff _ iff_of_mem.symm

end SortsStably

end Stable

/-! ## One key -/

namespace SortKey

theorem transCmp_get (path : Path) :
    TransCmp fun a b => Value.sortCompare (path.get a) (path.get b) where
  eq_swap := OrientedCmp.eq_swap
  isLE_trans := TransCmp.isLE_trans

instance (key : SortKey) : TransCmp key.compare := by
  obtain ⟨path, descending⟩ := key
  have hpath := transCmp_get path
  cases descending with
  | false => exact hpath
  | true =>
      have hswap : compare ⟨path, true⟩ =
          fun a b => Value.sortCompare (path.get b) (path.get a) := by
        funext a b
        exact OrientedCmp.eq_swap.symm
      rw [hswap]
      exact TransCmp.opposite

theorem sortsStably_sort (key : SortKey) (docs : List Value) :
    SortsStably key.compare docs (key.sort docs) := .mergeSort docs

/-! ## Several keys -/

/-- The order by several keys: the first of them decides, and where it finds no
difference the others do. -/
def lexicographic : List SortKey → Value → Value → Ordering
  | [] => fun _ _ => .eq
  | key :: rest => compareLex key.compare (lexicographic rest)

instance transCmp_lexicographic (keys : List SortKey) :
    TransCmp (lexicographic keys) := by
  induction keys with
  | nil => exact { eq_swap := rfl, isLE_trans := fun _ _ => rfl }
  | cons key rest ih =>
      exact inferInstanceAs
        (TransCmp (compareLex key.compare (lexicographic rest)))

/-- To sort by one key after the other is to sort by the last key first. -/
theorem sortsStably_foldl (keys : List SortKey) (docs : List Value) :
    SortsStably (lexicographic keys.reverse) docs
      (keys.foldl (fun docs key => key.sort docs) docs) := by
  induction keys using List.reverseRecOn with
  | nil => exact .refl docs
  | append_singleton keys key ih =>
      rw [List.foldl_concat, List.reverse_concat]
      exact (key.sortsStably_sort _).after ih

/-- The key that a field of a sort asks for: the path that its name is, in the
ascending order for a positive number and in the descending one for a negative
number. -/
inductive Asks : String × Value → SortKey → Prop
  | ascending {field : String} {path : Path} {n : Number}
      (hpath : Path.parse field = .ok path)
      (hn : n.isPositive = true) : Asks (field, .number n) ⟨path, false⟩
  | descending {field : String} {path : Path} {n : Number}
      (hpath : Path.parse field = .ok path)
      (hn : n.isNegative = true) : Asks (field, .number n) ⟨path, true⟩

theorem readSortKey_of_asks {entry : String × Value} {key : SortKey}
    (h : Asks entry key) :
    Aggregation.readSortKey entry = .ok key := by
  cases h with
  | ascending hpath hn =>
      rw [Aggregation.readSortKey, descending?, if_pos hn, hpath]
      rfl
  | @descending field path n hpath hn =>
      have hnot : ¬ n.isPositive = true := by
        simp only [Number.isPositive, Number.isNegative,
          decide_eq_true_eq] at hn ⊢
        omega
      rw [Aggregation.readSortKey, descending?, if_neg hnot, if_pos hn, hpath]
      rfl

theorem ofValue_sort {fields : List (String × Value)} {keys : List SortKey}
    (hkeys : List.Forall₂ Asks fields keys) :
    Aggregation.Stage.ofValue (.object [("$sort", .object fields)]) =
      .ok (.sort keys) := by
  have hread : fields.mapM Aggregation.readSortKey = .ok keys :=
    mapM_eq_ok.mpr (hkeys.imp fun _ _ => readSortKey_of_asks)
  show Aggregation.Stage.sort <$> fields.mapM Aggregation.readSortKey = _
  rw [hread]
  rfl

end SortKey

/-- A sort by several keys gives the documents in the lexicographic order of the
keys, the last one first, and documents that are equal by all of them stand as
they stood; this makes it the only list that it can be. With one key it is what
the sort of a search gives. -/
theorem sorts_last_key_first {fields : List (String × Value)}
    {keys : List SortKey} (hkeys : List.Forall₂ SortKey.Asks fields keys)
    (docs : List Value) :
    ∃ sorted,
      Aggregation.aggregate docs
        (.array [.object [("$sort", .object fields)]]) = .ok sorted ∧
      (∀ other, SortsStably (SortKey.lexicographic keys.reverse) docs other ↔
        other = sorted) ∧
      ∀ (spec : SortSpec) (key : SortKey), keys = [key] →
        Path.parse spec.field = .ok key.path →
        spec.descending = key.descending → spec.sort docs = .ok sorted := by
  have hsorted := SortKey.sortsStably_foldl keys docs
  refine ⟨_, Aggregation.aggregate_singleton
    (SortKey.ofValue_sort hkeys) docs, ?_, ?_⟩
  · intro other
    refine ⟨fun h => h.unique hsorted, ?_⟩
    rintro rfl
    exact hsorted
  · rintro spec key rfl hpath hdescending
    rw [SortSpec.sort, hpath, hdescending]
    rfl

/-- Ada and Bob are equal by both keys, and Cyd and Dan have no score. -/
def scored : List Value :=
  [.object [("name", .string "Dan"), ("n", .ofInt 2)],
    .object [("name", .string "Cyd"), ("n", .ofInt 1)],
    .object [("name", .string "Ada"), ("n", .ofInt 1), ("score", .ofInt 5)],
    .object [("name", .string "Bob"), ("n", .ofInt 1), ("score", .ofInt 5)]]

def byScore : SortKey := ⟨⟨[.key "score"], List.cons_ne_nil _ _⟩, true⟩

def byN : SortKey := ⟨⟨[.key "n"], List.cons_ne_nil _ _⟩, false⟩

/-- The number decides first, then the score, and Ada stays before Bob. -/
theorem sorts_last_key_first_scored :
    List.Forall₂ SortKey.Asks [("score", .ofInt (-1)), ("n", .ofInt 1)]
      [byScore, byN] ∧
      Aggregation.aggregate scored (.array [.object [("$sort",
          .object [("score", .ofInt (-1)), ("n", .ofInt 1)])]]) =
        .ok [scored[2], scored[3], scored[1], scored[0]] ∧
      (SortSpec.mk "n" false).sort scored =
        .ok [scored[1], scored[2], scored[3], scored[0]] := by
  have hscore : SortKey.Asks ("score", .ofInt (-1)) byScore :=
    .descending (by decide +kernel) (by decide +kernel)
  have hn : SortKey.Asks ("n", .ofInt 1) byN :=
    .ascending (by decide +kernel) (by decide +kernel)
  have hkeys := List.Forall₂.cons hscore (.cons hn .nil)
  obtain ⟨sorted, hsorted, honly, -⟩ := sorts_last_key_first hkeys scored
  obtain ⟨found, -, hfound, hsearch⟩ :=
    sorts_last_key_first (.cons hn .nil) scored
  have hboth : SortsStably (SortKey.lexicographic [byN, byScore]) scored
      [scored[2], scored[3], scored[1], scored[0]] := by decide +kernel
  have hone : SortsStably (SortKey.lexicographic [byN]) scored
      [scored[1], scored[2], scored[3], scored[0]] := by decide +kernel
  rw [(honly _).mp hboth, (hfound _).mp hone]
  exact ⟨hkeys, hsorted, hsearch _ byN rfl (by decide +kernel) rfl⟩

end DocumentStore
