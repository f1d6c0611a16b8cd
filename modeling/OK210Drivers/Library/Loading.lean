import OK210Drivers.Library.Runs

/-!
# Drivers that are loaded and unloaded

What a load meets outside the driver is an argument of it: a run is any sequence of loads and unloads with
any outcomes of what they call.
-/

namespace Library

variable {σ ω : Type*}

/-- The result of a load, which is 0 when it succeeds, and what it leaves of the system either way; or
nothing when it does not come back. -/
structure Driver (σ ω : Type*) where
  load : ω → σ → Option (Int × σ)
  unload : σ → σ

/-- The system, and whether the driver is loaded. -/
structure Loading (σ : Type*) where
  sys : σ
  loaded : Bool

inductive LoadEvent (ω : Type*)
  | load (o : ω) (ret : Int)
  | unload

def LoadEvent.succeeded : LoadEvent ω → Bool
  | .load _ ret => decide (ret = 0)
  | .unload => false

namespace Driver

variable {d : Driver σ ω} {es : List (LoadEvent ω)} {w w' : Loading σ}

inductive Step (d : Driver σ ω) : Loading σ → LoadEvent ω → Loading σ → Prop
  | load {s s' : σ} {ret : Int} (o : ω) (h : d.load o s = some (ret, s')) :
      Step d ⟨s, false⟩ (.load o ret) ⟨s', decide (ret = 0)⟩
  | unload {s : σ} : Step d ⟨s, true⟩ .unload ⟨d.unload s, false⟩

/-- What is so while the driver is not loaded, and what while it is. -/
def When (O L : List (LoadEvent ω) → σ → Prop) (es : List (LoadEvent ω)) (w : Loading σ) : Prop :=
  (w.loaded = false → O es w.sys) ∧ (w.loaded = true → L es w.sys)

/-- Two invariants, for the two states of a driver. -/
theorem invariant {s₀ : σ} (O L : List (LoadEvent ω) → σ → Prop) (h0 : O [] s₀)
    (hload : ∀ es o s s', O es s → d.load o s = some (0, s') → L (es ++ [.load o 0]) s')
    (hfail : ∀ es o s ret s', O es s → d.load o s = some (ret, s') → ret ≠ 0 → O (es ++ [.load o ret]) s')
    (hunload : ∀ es s, L es s → O (es ++ [.unload]) (d.unload s))
    (h : Run d.Step ⟨s₀, false⟩ es w) : When O L es w := by
  apply h.invariant (When O L)
  · exact ⟨fun _ ↦ h0, nofun⟩
  · intro es s e t _ hi ht
    cases ht with
    | @load s s' ret o heq =>
      refine ⟨fun hno ↦ ?_, fun hyes ↦ ?_⟩
      · exact hfail _ _ _ _ _ (hi.1 rfl) heq (of_decide_eq_false hno)
      · obtain rfl : ret = 0 := of_decide_eq_true hyes
        exact hload _ _ _ _ (hi.1 rfl) heq
    | unload => exact ⟨fun _ ↦ hunload _ _ (hi.2 rfl), nofun⟩

section Spent

variable (T : σ → Prop)
  (hspent : ∀ o s ret s', T s → d.load o s = some (ret, s') → ret ≠ 0 ∧ T s')
  (hunload : ∀ s, T s → T (d.unload s))

include hspent hunload

/-- What no load can do with is there for ever, when neither a load nor an unload removes it. -/
theorem spent (hT : T w.sys) (h : Run d.Step w es w') : T w'.sys ∧ es.countP LoadEvent.succeeded = 0 := by
  apply h.invariant (fun es w ↦ T w.sys ∧ es.countP LoadEvent.succeeded = 0)
  · exact ⟨hT, rfl⟩
  · rintro es s e t _ ⟨hT, hnone⟩ ht
    rw [List.countP_append, hnone, Nat.zero_add, List.countP_singleton]
    cases ht with
    | load o heq =>
      obtain ⟨hret, hT'⟩ := hspent _ _ _ _ hT heq
      exact ⟨hT', if_neg (by simpa [LoadEvent.succeeded] using hret)⟩
    | unload => exact ⟨hunload _ hT, if_neg nofun⟩

/-- When a load that succeeds leaves it behind, a run has at most one. -/
theorem at_most_once (hload : ∀ o s s', d.load o s = some (0, s') → T s') (h : Run d.Step w es w') :
    es.countP LoadEvent.succeeded ≤ 1 ∧ (es.countP LoadEvent.succeeded = 1 → T w'.sys) := by
  apply h.invariant (fun es w ↦ es.countP LoadEvent.succeeded ≤ 1 ∧
    (es.countP LoadEvent.succeeded = 1 → T w.sys))
  · exact ⟨Nat.zero_le 1, nofun⟩
  · rintro es s e t _ ⟨hle, hT⟩ ht
    by_cases hone : es.countP LoadEvent.succeeded = 1
    · obtain ⟨hT', hnone⟩ := spent T hspent hunload (hT hone) (.snoc .nil ht)
      rw [List.countP_append, show [e].countP LoadEvent.succeeded = 0 from hnone, hone]
      exact ⟨Nat.le_refl 1, fun _ ↦ hT'⟩
    · have hzero : es.countP LoadEvent.succeeded = 0 := by omega
      rw [List.countP_append, hzero, Nat.zero_add, List.countP_singleton]
      cases ht with
      | @load s s' ret o heq =>
        refine ⟨?_, fun hyes ↦ ?_⟩
        · split
          · exact Nat.le_refl 1
          · exact Nat.zero_le 1
        · have hret : ret = 0 := by
            by_contra hne
            rw [if_neg (by simpa [LoadEvent.succeeded] using hne)] at hyes
            cases hyes
          exact hload _ _ _ (hret ▸ heq)
      | unload => exact ⟨Nat.zero_le 1, nofun⟩

end Spent

end Driver

end Library
