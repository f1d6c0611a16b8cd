import Mathlib.Logic.Function.Basic
import OK210Drivers.Library.Runs

/-!
# Threads that share a state

Each thread has a state of its own besides the shared one, and any of them may take the next step.  The
assertions about a thread hold throughout when its own steps keep them and no step of another one
interferes.
-/

namespace Library

variable {τ σ κ ε : Type*}

structure Threads (τ σ κ : Type*) where
  shared : σ
  loc : τ → κ

namespace Threads

variable [DecidableEq τ]

/-- A step of one thread, by a step relation of the shared state and its own. -/
inductive Step (step : τ → σ → κ → ε → σ → κ → Prop) : Threads τ σ κ → τ × ε → Threads τ σ κ → Prop
  | mk {w : Threads τ σ κ} {t : τ} {e : ε} {s : σ} {l : κ} (h : step t w.shared (w.loc t) e s l) :
      Step step w (t, e) ⟨s, Function.update w.loc t l⟩

/-- What is asserted of the shared state, and of each thread with it. -/
def Asserted (G : List (τ × ε) → σ → Prop) (L : List (τ × ε) → τ → σ → κ → Prop) (es : List (τ × ε))
    (w : Threads τ σ κ) : Prop :=
  G es w.shared ∧ ∀ t, L es t w.shared (w.loc t)

/-- The assertions hold in every interleaving: each step keeps what is asserted of the thread that takes
it, and what is asserted of any other one. -/
theorem asserted {step : τ → σ → κ → ε → σ → κ → Prop} {w₀ : Threads τ σ κ}
    (G : List (τ × ε) → σ → Prop) (L : List (τ × ε) → τ → σ → κ → Prop) (h0 : Asserted G L [] w₀)
    (hown : ∀ es t s l e s' l', G es s → L es t s l → step t s l e s' l' →
      G (es ++ [(t, e)]) s' ∧ L (es ++ [(t, e)]) t s' l')
    (hother : ∀ es t s l e s' l' u m, u ≠ t → G es s → L es t s l → L es u s m → step t s l e s' l' →
      L (es ++ [(t, e)]) u s' m)
    {es : List (τ × ε)} {w : Threads τ σ κ} (h : Run (Step step) w₀ es w) : Asserted G L es w := by
  apply h.invariant (Asserted G L) h0
  rintro es w _ _ _ ⟨hG, hL⟩ ht
  cases ht with
  | @mk t e s l hst =>
    obtain ⟨hG', hL'⟩ := hown _ _ _ _ _ _ _ hG (hL t) hst
    refine ⟨hG', fun u ↦ ?_⟩
    by_cases hu : u = t
    · subst hu
      show L _ u s (Function.update w.loc u l u)
      rwa [Function.update_self]
    · show L _ u s (Function.update w.loc t l u)
      rw [Function.update_of_ne hu]
      exact hother _ _ _ _ _ _ _ u _ hu hG (hL t) (hL u) hst

end Threads

end Library
