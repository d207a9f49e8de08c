import DocumentStore.Error
import Mathlib.Data.List.Forall2

/-!
# Running operations

A result with a value is one all of whose steps had a value: `bind_eq_ok`,
`map_eq_ok` and `mapM_eq_ok` take such a result apart, and `bind_eq_error` one
that is an error. `exec_bind_eq_ok` and `exec_bind_eq_error` do so for
operations that change a state.

The operations of the store and the writes in memory have one shape: they change
a state and give a result or an error, and what was changed before an error
stays changed. `exec` runs such an operation on a state. The lemmas below are
all that proofs need to know about it, one for each way in which operations are
put together.

An operation `Leads` along a relation if, whatever its outcome is, the state
before and the one after are so related. For a relation that can be composed, an
operation leads along it if its parts do.
-/

namespace DocumentStore

variable {σ α β : Type}

theorem bind_eq_ok {r : Result α} {f : α → Result β} {b : β} :
    (r >>= f) = .ok b ↔ ∃ a, r = .ok a ∧ f a = .ok b := by
  cases r with
  | ok a =>
      refine ⟨fun h => ⟨a, rfl, h⟩, ?_⟩
      rintro ⟨x, hx, h⟩
      cases hx
      exact h
  | error e =>
      refine ⟨nofun, ?_⟩
      rintro ⟨x, hx, h⟩
      cases hx

theorem bind_eq_error {r : Result α} {f : α → Result β} {e : Error} :
    (r >>= f) = .error e ↔ r = .error e ∨ ∃ a, r = .ok a ∧ f a = .error e := by
  cases r with
  | ok a =>
      refine ⟨fun h => .inr ⟨a, rfl, h⟩, ?_⟩
      rintro (hr | ⟨x, hx, h⟩)
      · cases hr
      · cases hx
        exact h
  | error fault =>
      refine ⟨fun h => .inl (congrArg _ (Except.error.inj h)), ?_⟩
      rintro (hr | ⟨x, hx, h⟩)
      · exact congrArg _ (Except.error.inj hr)
      · cases hx

theorem map_eq_ok {r : Result α} {f : α → β} {b : β} :
    f <$> r = .ok b ↔ ∃ a, r = .ok a ∧ f a = b := by
  cases r with
  | ok a =>
      refine ⟨fun h => ⟨a, rfl, Except.ok.inj h⟩, ?_⟩
      rintro ⟨x, hx, h⟩
      cases hx
      exact congrArg Except.ok h
  | error e =>
      refine ⟨nofun, ?_⟩
      rintro ⟨x, hx, h⟩
      cases hx

theorem mapM_eq_ok {f : α → Result β} {items : List α} {results : List β} :
    items.mapM f = .ok results ↔
      List.Forall₂ (fun a b => f a = .ok b) items results := by
  induction items generalizing results with
  | nil =>
      rw [List.forall₂_nil_left_iff]
      exact ⟨fun h => (Except.ok.inj h).symm, fun h => h ▸ rfl⟩
  | cons a rest ih =>
      rw [List.mapM_cons, bind_eq_ok]
      constructor
      · rintro ⟨b, hb, h⟩
        obtain ⟨others, hothers, heq⟩ := bind_eq_ok.mp h
        cases heq
        exact .cons hb (ih.mp hothers)
      · intro h
        cases h with
        | @cons _ b _ others hb hothers =>
            exact ⟨b, hb, bind_eq_ok.mpr ⟨others, ih.mpr hothers, rfl⟩⟩

/-- Run an operation: its outcome, and the state afterwards. -/
def exec (m : ExceptT Error (StateM σ) α) (s : σ) : Result α × σ :=
  (m.run.run s).run

theorem exec_get (s : σ) :
    exec (get : ExceptT Error (StateM σ) σ) s = (.ok s, s) := rfl

theorem exec_set (s t : σ) :
    exec (set t : ExceptT Error (StateM σ) PUnit) s = (.ok ⟨⟩, t) := rfl

theorem exec_mk (r : Result α) (s : σ) :
    exec (ExceptT.mk (pure r) : ExceptT Error (StateM σ) α) s = (r, s) := rfl

theorem exec_bind (m : ExceptT Error (StateM σ) α)
    (f : α → ExceptT Error (StateM σ) β) (s : σ) :
    exec (m >>= f) s =
      match exec m s with
      | (.ok a, t) => exec (f a) t
      | (.error e, t) => (.error e, t) := by
  show (exec (m >>= f) s) = _
  simp only [exec, ExceptT.run_bind, StateT.run_bind, Id.run_bind]
  cases (m.run.run s).run with
  | mk outcome t =>
      cases outcome with
      | ok a => rfl
      | error e => rfl

theorem exec_bind_eq_ok {m : ExceptT Error (StateM σ) α}
    {f : α → ExceptT Error (StateM σ) β} {s t : σ} {b : β} :
    exec (m >>= f) s = (.ok b, t) ↔
      ∃ a u, exec m s = (.ok a, u) ∧ exec (f a) u = (.ok b, t) := by
  rw [exec_bind]
  cases exec m s with
  | mk outcome u =>
      cases outcome with
      | ok a =>
          refine ⟨fun h => ⟨a, u, rfl, h⟩, ?_⟩
          rintro ⟨x, v, hx, h⟩
          cases hx
          exact h
      | error e =>
          refine ⟨nofun, ?_⟩
          rintro ⟨x, v, hx, -⟩
          cases hx

theorem exec_bind_eq_error {m : ExceptT Error (StateM σ) α}
    {f : α → ExceptT Error (StateM σ) β} {s t : σ} {e : Error} :
    exec (m >>= f) s = (.error e, t) ↔
      exec m s = (.error e, t) ∨ ∃ a u, exec m s = (.ok a, u) ∧
        exec (f a) u = (.error e, t) := by
  rw [exec_bind]
  cases exec m s with
  | mk outcome u =>
      cases outcome with
      | ok a =>
          refine ⟨fun h => .inr ⟨a, u, rfl, h⟩, ?_⟩
          rintro (hm | ⟨x, v, hx, h⟩)
          · cases hm
          · cases hx
            exact h
      | error fault =>
          refine ⟨fun h => .inl ?_, ?_⟩
          · cases h
            rfl
          · rintro (hm | ⟨x, v, hx, -⟩)
            · cases hm
              rfl
            · cases hx

/-- What follows an operation without changing the state leaves it as it was. -/
theorem exec_bind_snd {m : ExceptT Error (StateM σ) α}
    {f : α → ExceptT Error (StateM σ) β} (hf : ∀ a t, (exec (f a) t).2 = t)
    (s : σ) : (exec (m >>= f) s).2 = (exec m s).2 := by
  rw [exec_bind]
  cases exec m s with
  | mk outcome t =>
      cases outcome with
      | ok a => exact hf a t
      | error e => rfl

/-! ## What an operation leads to -/

/-- Whatever the outcome is, the states before and after are related. -/
def Leads (R : σ → σ → Prop) (m : ExceptT Error (StateM σ) α) : Prop :=
  ∀ s, R s (exec m s).2

theorem Leads.bind {R : σ → σ → Prop}
    (htrans : ∀ {a b c}, R a b → R b c → R a c) {m : ExceptT Error (StateM σ) α}
    {f : α → ExceptT Error (StateM σ) β} (hm : Leads R m)
    (hf : ∀ a, Leads R (f a)) : Leads R (m >>= f) := by
  intro s
  have hfirst := hm s
  rw [exec_bind]
  cases hrun : exec m s with
  | mk outcome t =>
      rw [hrun] at hfirst
      cases outcome with
      | ok a => exact htrans hfirst (hf a t)
      | error e => exact hfirst

end DocumentStore
