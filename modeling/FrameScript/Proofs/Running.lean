/-
  Running actions that can fail.

  Lowering is written in two monads of one shape: an action takes a state and gives a result or an
  error, and in either case a new state.  This file says how such an action runs, once, so that no
  later proof opens the monads:

  1. `run_bind` and its companions compute `run` of an action from the runs of its parts;
  2. `run_bind_ok` takes a successful run apart;
  3. `Keeps R m` says that `m` relates its first state to its last by `R`, whether or not it fails.
     For a reflexive and transitive `R` it is closed under everything that actions are built from.
-/
import FrameScript.Session

namespace FrameScript

section Actions

variable {ε σ α β : Type}

/-! ## How an action runs -/

@[simp] theorem run_pure (a : α) (s : σ) :
    (pure a : ExceptT ε (StateM σ) α).run s = (.ok a, s) := rfl

@[simp] theorem run_get (s : σ) : (get : ExceptT ε (StateM σ) σ).run s = (.ok s, s) := rfl

@[simp] theorem run_modifyGet (f : σ → α × σ) (s : σ) :
    (modifyGet f : ExceptT ε (StateM σ) α).run s = (.ok (f s).1, (f s).2) := rfl

/-- An action that cannot fail, inside one that can. -/
@[simp] theorem run_liftM (m : StateM σ α) (s : σ) :
    (liftM m : ExceptT ε (StateM σ) α).run s = (.ok (m s).1, (m s).2) := rfl

@[simp] theorem run_ofExcept_ok (a : α) (s : σ) :
    (MonadExcept.ofExcept (.ok a) : ExceptT ε (StateM σ) α).run s = (.ok a, s) := rfl

@[simp] theorem run_ofExcept_error (e : ε) (s : σ) :
    (MonadExcept.ofExcept (.error e) : ExceptT ε (StateM σ) α).run s = (.error e, s) := rfl

/-- One action after another: an error of the first is the error of both. -/
theorem run_bind (m : ExceptT ε (StateM σ) α) (f : α → ExceptT ε (StateM σ) β) (s : σ) :
    (m >>= f).run s = match m.run s with
      | (.ok a, t) => (f a).run t
      | (.error e, t) => (.error e, t) := by
  show (ExceptT.bindCont f (m s).1 : StateM σ _) (m s).2 = _
  rcases h : m s with ⟨r, t⟩
  have hrun : m.run s = (r, t) := h
  rw [hrun]
  cases r <;> rfl

theorem run_map (m : ExceptT ε (StateM σ) α) (f : α → β) (s : σ) :
    (f <$> m).run s = ((m.run s).1.map f, (m.run s).2) := by
  rcases h : m s with ⟨r, t⟩
  have hrun : m.run s = (r, t) := h
  show (f <$> m) s = _
  rw [hrun]
  cases r with
  | ok a => simp [Functor.map, ExceptT.map, ExceptT.mk, StateT.bind, bind, h]; rfl
  | error e => simp [Functor.map, ExceptT.map, ExceptT.mk, StateT.bind, bind, h]; rfl

/-- A successful run of two actions is a successful run of each. -/
theorem run_bind_ok {m : ExceptT ε (StateM σ) α} {f : α → ExceptT ε (StateM σ) β} {s t : σ} {b : β}
    (h : (m >>= f).run s = (.ok b, t)) :
    ∃ a u, m.run s = (.ok a, u) ∧ (f a).run u = (.ok b, t) := by
  rw [run_bind] at h
  rcases hm : m.run s with ⟨r, u⟩
  rw [hm] at h
  cases r with
  | ok a => exact ⟨a, u, rfl, h⟩
  | error e => exact absurd (congrArg Prod.fst h) (by simp)

/-- Two successful outcomes are equal part by part. -/
theorem ok_inj {a b : α} {s t : σ} (h : ((.ok a, s) : Except ε α × σ) = (.ok b, t)) :
    a = b ∧ s = t := by
  obtain ⟨ha, hs⟩ := Prod.mk.inj h
  exact ⟨Except.ok.inj ha, hs⟩

/-! ## What an action keeps, failing or not -/

/-- The action takes every state to one that is related to it. -/
def Keeps (R : σ → σ → Prop) (m : ExceptT ε (StateM σ) α) : Prop := ∀ s, R s (m.run s).2

namespace Keeps

variable {R : σ → σ → Prop}

theorem bind (htrans : ∀ {s t u}, R s t → R t u → R s u) {m : ExceptT ε (StateM σ) α}
    {f : α → ExceptT ε (StateM σ) β} (hm : Keeps R m) (hf : ∀ a, Keeps R (f a)) :
    Keeps R (m >>= f) := by
  intro s
  rw [run_bind]
  have hs := hm s
  rcases h : m.run s with ⟨r, t⟩
  rw [h] at hs
  cases r with
  | ok a => exact htrans hs (hf a t)
  | error e => exact hs

theorem pure (hrefl : ∀ s, R s s) (a : α) : Keeps R (Pure.pure a : ExceptT ε (StateM σ) α) :=
  fun s => hrefl s

theorem ofExcept (hrefl : ∀ s, R s s) (x : Except ε α) :
    Keeps R (MonadExcept.ofExcept x : ExceptT ε (StateM σ) α) := by
  cases x with
  | ok a => exact fun s => hrefl s
  | error e => exact fun s => hrefl s

end Keeps

end Actions

end FrameScript
