import DocumentStore.Proofs.Write.Step
import Mathlib.Data.List.Infix
import Mathlib.Data.List.Nodup

/-!
# Documents renewed in place

A filter finds places in ascending order, none of them twice, and a change puts
a new version of the document at each of them, in this order. It fails at the
first document of which it cannot make one, and then those before it are renewed
already and the others are untouched: `change_spec` says this exactly, and
`getElem?_renew` what stands at a place afterwards.

Both ways to change documents in place come down to it: they find places, change
the documents there and may bring one about if there are none.
-/

namespace DocumentStore

variable {now : Instant} {c : Change} {filter doc : Value} {docs : List Value}
  {batch : Batch} {many : Bool} {found : List Nat}

/-! ## Places ascend -/

namespace Write

theorem le_of_mem_placesFrom {clause : Value} {place i : Nat}
    (h : placesFrom clause place docs = .ok found) (hi : i ∈ found) :
    place ≤ i := by
  induction docs generalizing place found with
  | nil =>
      cases h
      cases hi
  | cons doc rest ih =>
      obtain ⟨b, -, h⟩ := bind_eq_ok.mp h
      cases b with
      | true =>
          obtain ⟨others, hothers, heq⟩ := bind_eq_ok.mp h
          cases heq
          rcases List.mem_cons.mp hi with rfl | hi
          · exact Nat.le_refl i
          · exact Nat.le_of_succ_le (ih hothers hi)
      | false => exact Nat.le_of_succ_le (ih h hi)

theorem ascending_placesFrom {clause : Value} {place : Nat}
    (h : placesFrom clause place docs = .ok found) :
    found.Pairwise (· < ·) := by
  induction docs generalizing place found with
  | nil =>
      cases h
      exact List.Pairwise.nil
  | cons doc rest ih =>
      obtain ⟨b, -, h⟩ := bind_eq_ok.mp h
      cases b with
      | true =>
          obtain ⟨others, hothers, heq⟩ := bind_eq_ok.mp h
          cases heq
          exact List.pairwise_cons.mpr
            ⟨fun i hi => le_of_mem_placesFrom hothers hi, ih hothers⟩
      | false => exact ih h

theorem firstPlaceFrom_cases {clause : Value} {place : Nat}
    (h : firstPlaceFrom clause place docs = .ok found) :
    found = [] ∨ ∃ first, found = [first] := by
  induction docs generalizing place with
  | nil =>
      cases h
      exact .inl rfl
  | cons doc rest ih =>
      obtain ⟨b, -, h⟩ := bind_eq_ok.mp h
      cases b with
      | true =>
          cases h
          exact .inr ⟨place, rfl⟩
      | false => exact ih h

theorem firstPlace_cases (h : places batch filter false = .ok found) :
    found = [] ∨ ∃ first, found = [first] := by
  rw [places] at h
  split at h
  · cases h
    cases batch.index.find? _ with
    | none => exact .inl rfl
    | some place => exact .inr ⟨place, rfl⟩
  · obtain ⟨clause, -, h⟩ := bind_eq_ok.mp h
    exact firstPlaceFrom_cases h

theorem ascending_places (h : places batch filter many = .ok found) :
    found.Pairwise (· < ·) := by
  cases many with
  | false =>
      rcases firstPlace_cases h with rfl | ⟨first, rfl⟩
      · exact List.Pairwise.nil
      · exact List.pairwise_singleton _ first
  | true =>
      rw [places] at h
      split at h
      · cases h
        cases batch.index.find? _ with
        | none => exact List.Pairwise.nil
        | some place => exact List.pairwise_singleton _ place
      · obtain ⟨clause, -, h⟩ := bind_eq_ok.mp h
        exact ascending_placesFrom h

theorem nodup_places (h : places batch filter many = .ok found) : found.Nodup :=
  (ascending_places h).imp Nat.ne_of_lt

/-! ## What becomes of the documents -/

/-- The documents with those at some places renewed. -/
def renew (f : Value → Value) (places : List Nat)
    (docs : List Value) : List Value :=
  places.foldl (fun docs place => docs.modify place f) docs

theorem getElem?_renew {f : Value → Value} {places : List Nat}
    (hplaces : places.Nodup) (docs : List Value) (i : Nat) :
    (renew f places docs)[i]? = if i ∈ places then (docs[i]?).map f
      else docs[i]? := by
  induction places generalizing docs with
  | nil => rfl
  | cons place rest ih =>
      obtain ⟨hplace, hrest⟩ := List.nodup_cons.mp hplaces
      have hnext : (docs.modify place f)[i]? = if place =
          i then (docs[i]?).map f else docs[i]? := by
        rw [List.getElem?_modify]
        split
        · rfl
        · exact Option.map_id'
      show (renew f rest (docs.modify place f))[i]? = _
      rw [ih hrest, hnext]
      by_cases hi : place = i
      · subst hi
        simp [hplace]
      · simp [hi, Ne.symm hi]

theorem length_renew (f : Value → Value) (places : List Nat)
    (docs : List Value) :
    (renew f places docs).length = docs.length := by
  induction places generalizing docs with
  | nil => rfl
  | cons place rest ih => exact (ih _).trans (List.length_modify _ _ _)

theorem modify_eq_self {f : Value → Value} {place : Nat}
    (h : ∀ doc, docs[place]? = some doc → f doc = doc) :
    docs.modify place f = docs := by
  refine List.ext_getElem? fun i => ?_
  rw [List.getElem?_modify]
  split
  · next hi =>
      subst hi
      cases hget : docs[place]? with
      | none => rfl
      | some doc => exact congrArg some (h doc hget)
  · exact Option.map_id'

theorem modify_version {place : Nat} {changed : Value}
    (hget : docs[place]? = some doc) (happly : c.apply now doc = .ok changed) :
    docs.modify place (c.version now) =
      if changed.same doc then docs else docs.set place changed := by
  have hversion := Change.version_of_apply happly
  split
  · next hsame =>
      rw [if_pos hsame] at hversion
      refine modify_eq_self fun d hd => ?_
      rw [hget, Option.some.injEq] at hd
      rw [← hd, hversion]
  · next hsame =>
      rw [if_neg hsame] at hversion
      rw [List.modify_eq_set_getElem?, hget, ← hversion]
      rfl

/-- Changing documents fails at the first of them, or it renews the first,
counts it if it is another one now, and changes the others. -/
theorem change_cases (now : Instant) (c : Change) (place : Nat)
    (rest : List Nat) (batch : Batch) :
    (∃ e, (batch.docs[place]?).map (c.apply now) = some (.error e) ∧
        exec (change now c (place :: rest)) batch = (.error e, batch)) ∨
      (∀ doc, batch.docs[place]? = some doc → ∃ changed,
          c.apply now doc = .ok changed) ∧
        exec (change now c (place :: rest)) batch =
          Prod.map
            (Except.map (· + (batch.docs[place]?).toList.countP
              (c.rewrites now))) id
            (exec (change now c rest)
              { batch with
                docs := batch.docs.modify place (c.version now) }) := by
  have hcount : ∀ more : Result Nat × Batch,
      Prod.map (Except.map (· + 0)) id more = more := by
    rintro ⟨outcome, after⟩
    cases outcome <;> rfl
  rw [change_cons]
  cases hget : batch.docs[place]? with
  | none =>
      have hsame : batch.docs.modify place (c.version now) = batch.docs :=
        modify_eq_self fun doc hdoc => nomatch hget.symm.trans hdoc
      rw [hsame]
      exact .inr ⟨nofun, (hcount _).symm⟩
  | some doc =>
      dsimp only
      cases happly : c.apply now doc with
      | error e => exact .inl ⟨e, congrArg some happly, rfl⟩
      | ok changed =>
          have hdecided : ∀ d, some doc = some d → ∃ changed,
              c.apply now d = .ok changed := by
            rintro d ⟨⟩
            exact ⟨changed, happly⟩
          have hrewrites : [doc].countP (c.rewrites now) =
              if changed.same doc then 0 else 1 := by
            rw [List.countP_singleton, Change.rewrites_of_apply happly]
            cases changed.same doc <;> rfl
          refine .inr ⟨hdecided, ?_⟩
          rw [modify_version hget happly, Option.toList_some, hrewrites]
          dsimp only
          split
          · exact (hcount _).symm
          · rw [exec_bind]
            cases exec (change now c rest) { batch with
              docs := batch.docs.set place changed } with
            | mk outcome after => cases outcome <;> rfl

/-- A change renews the documents at the places and counts no more than these,
or it has renewed those at the first places when it fails at the next one.
Either way it does nothing else. -/
theorem change_spec (now : Instant) (c : Change) (places : List Nat)
    (batch : Batch) :
    (∃ n, n ≤ places.length ∧ exec (change now c places) batch =
        (.ok n, { batch with docs := renew (c.version now) places batch.docs })) ∨
      ∃ done place rest e, places = done ++ place :: rest ∧
        ((renew (c.version now) done batch.docs)[place]?).map (c.apply now) =
          some (.error e) ∧
        exec (change now c places) batch =
          (.error e, { batch with
            docs := renew (c.version now) done batch.docs }) := by
  induction places generalizing batch with
  | nil => exact .inl ⟨0, Nat.le_refl 0, rfl⟩
  | cons place rest ih =>
      rcases change_cases now c place rest batch with
        ⟨e, hfails, hrun⟩ | ⟨-, hrun⟩
      · exact .inr ⟨[], place, rest, e, rfl, hfails, hrun⟩
      · have hcount : (batch.docs[place]?).toList.countP (c.rewrites now) ≤ 1 :=
          Nat.le_trans List.countP_le_length Option.length_toList_le
        rw [hrun]
        rcases ih { batch with
            docs := batch.docs.modify place (c.version now) } with
          ⟨n, hn, hrest⟩ | ⟨done, failed, more, e, hsplit, hfails, hrest⟩
        · rw [hrest]
          exact .inl ⟨_, Nat.add_le_add hn hcount, rfl⟩
        · rw [hrest, hsplit]
          exact .inr ⟨place :: done, failed, more, e, rfl, hfails, rfl⟩

/-- A change that succeeds makes a new version of every document at the places,
and counts those that are other documents now. -/
theorem change_eq_ok {after : Batch} {places : List Nat} {n : Nat}
    (hplaces : places.Nodup)
    (h : exec (change now c places) batch = (.ok n, after)) :
    (∀ place ∈ places, ∀ doc, batch.docs[place]? = some doc →
        ∃ changed, c.apply now doc = .ok changed) ∧
      n = (places.filterMap (batch.docs[·]?)).countP (c.rewrites now) ∧
      after = { batch with
        docs := renew (c.version now) places batch.docs } := by
  induction places generalizing batch n with
  | nil =>
      cases h
      exact ⟨nofun, rfl, rfl⟩
  | cons place rest ih =>
      obtain ⟨hplace, hrest⟩ := List.nodup_cons.mp hplaces
      rcases change_cases now c place rest batch with
        ⟨e, -, hrun⟩ | ⟨happly, hrun⟩
      · rw [hrun] at h
        cases h
      · rw [hrun] at h
        cases hmore : exec (change now c rest)
            { batch with docs := batch.docs.modify place (c.version now) } with
        | mk outcome t =>
            rw [hmore] at h
            cases outcome with
            | error e => cases h
            | ok m =>
                cases h
                obtain ⟨hall, rfl, hafter⟩ := ih hrest hmore
                -- As the places are distinct, each holds what it held before
                -- the first change.
                have hstay : ∀ i ∈ rest,
                    (batch.docs.modify place (c.version now))[i]? =
                      batch.docs[i]? :=
                  fun i hi => List.getElem?_modify_ne _ _ fun heq =>
                    hplace (heq ▸ hi)
                refine ⟨?_, ?_, hafter⟩
                · intro i hi doc hdoc
                  rcases List.mem_cons.mp hi with rfl | hi
                  · exact happly doc hdoc
                  · exact hall i hi doc ((hstay i hi).trans hdoc)
                · rw [List.filterMap_congr hstay, List.filterMap_cons]
                  cases batch.docs[place]? with
                  | none => rfl
                  | some doc =>
                      dsimp only
                      rw [List.countP_cons, Option.toList_some,
                        List.countP_singleton]

/-- Whatever becomes of an insertion, the documents that were there stay. -/
theorem insert_adds (doc : Value) (batch : Batch) :
    batch.docs <+: (exec (insert doc) batch).2.docs := by
  rcases insert_cases doc batch with ⟨e, ids, hrun⟩ | ⟨id, made, ids, hrun, -⟩
  · rw [hrun]
  · rw [hrun]
    exact List.prefix_append batch.docs [made]

theorem bringAbout_adds (now : Instant) (filter : Value) (c : Change)
    (batch : Batch) :
    batch.docs <+: (exec (bringAbout now filter c) batch).2.docs := by
  rcases bringAbout_cases now filter c batch with
    ⟨e, ids, hrun⟩ | ⟨id, made, ids, hrun⟩
  · rw [hrun]
  · rw [hrun]
    exact List.prefix_append batch.docs [made]

/-- A write that finds its documents by a filter renews them, in order until it
fails, and may then bring one about. -/
def Renews (now : Instant) (c : Change) (filter : Value) (many : Bool)
    (w : Write α) : Prop :=
  ∀ batch, (∃ e, exec w batch = (.error e, batch)) ∨
    ∃ found done, places batch filter many = .ok found ∧ done <+: found ∧
      (∀ a, (exec w batch).1 = .ok a → done = found) ∧
      ((exec w batch).2 =
        { batch with docs := renew (c.version now) done batch.docs } ∨
        (exec w batch).2 = (exec (bringAbout now filter c)
          { batch with docs := renew (c.version now) done batch.docs }).2)

theorem renews_update (now : Instant) (filter : Value) (c : Change)
    (many upsert : Bool) :
    Renews now c filter many (update now filter c many upsert) := by
  intro batch
  rw [exec_update]
  cases hfound : places batch filter many with
  | error e => exact .inl ⟨e, rfl⟩
  | ok found =>
      dsimp only
      rcases change_spec now c found batch with
        ⟨n, -, hrun⟩ | ⟨done, place, rest, e, hsplit, -, hrun⟩
      · rw [hrun]
        refine .inr ⟨found, found, rfl, List.prefix_rfl, fun _ _ => rfl, ?_⟩
        dsimp only
        split
        · rw [exec_bind_snd fun id t => rfl]
          exact .inr rfl
        · exact .inl rfl
      · rw [hrun]
        exact .inr ⟨found, done, rfl, ⟨_, hsplit.symm⟩, nofun, .inl rfl⟩

theorem renews_revise (now : Instant) (filter : Value) (c : Change)
    (upsert : Bool) :
    Renews now c filter false (revise now filter c upsert) := by
  intro batch
  rw [exec_revise]
  cases hfound : places batch filter false with
  | error e => exact .inl ⟨e, rfl⟩
  | ok found =>
      dsimp only
      split
      · next place before hchosen =>
          obtain ⟨hhead, hget⟩ := getElem?_of_found hchosen
          have hsingle : found = [place] := by
            rcases firstPlace_cases hfound with rfl | ⟨first, rfl⟩
            · cases hhead
            · cases hhead
              rfl
          cases happly : c.apply now before with
          | error e => exact .inl ⟨e, rfl⟩
          | ok changed =>
              have hversion := modify_version hget happly
              refine .inr ⟨found, found, rfl, List.prefix_rfl,
                fun _ _ => rfl, .inl ?_⟩
              subst hsingle
              dsimp only
              split
              · next hsame =>
                  rw [if_pos hsame] at hversion
                  exact (congrArg (fun docs => { batch with docs }) hversion).symm
              · next hsame =>
                  rw [if_neg hsame] at hversion
                  exact (congrArg (fun docs => { batch with docs }) hversion).symm
      · next hnone =>
          have hstay : renew (c.version now) found batch.docs = batch.docs := by
            rcases firstPlace_cases hfound with rfl | ⟨first, rfl⟩
            · rfl
            · refine modify_eq_self fun d hd => ?_
              simp [hd] at hnone
          refine .inr ⟨found, found, rfl, List.prefix_rfl, fun _ _ => rfl, ?_⟩
          rw [hstay]
          split
          · rw [exec_bind_snd fun id t => rfl]
            exact .inr rfl
          · exact .inl rfl

end Write

end DocumentStore
