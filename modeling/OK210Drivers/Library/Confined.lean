import Mathlib.Data.Set.Function
import OK210Drivers.Library.Mem

/-!
# Operations confined to a set of offsets

An operation on a memory answers something and leaves a memory; an access outside of the object has
no result.  It is confined to a set of offsets if it has a result on every memory, changes nothing
outside of the set, and what it answers and leaves in the set depends only on what the set held.
-/

namespace Library.Mem

variable {β γ : Type*}

structure Confined (f : Mem β → Option (γ × Mem β)) (S : Set Nat) : Prop where
  defined : ∀ m, ∃ r, f m = some r
  frame : ∀ m r, f m = some r → Set.EqOn r.2 m Sᶜ
  depends : ∀ m m' r r', f m = some r → f m' = some r' → Set.EqOn m m' S →
    r.1 = r'.1 ∧ Set.EqOn r.2 r'.2 S

variable {S : Set Nat}

theorem load_eqOn {m m' : Mem β} (h : Set.EqOn m m' S) {p n : Nat} (hp : ∀ i < n, p + i ∈ S) :
    load m p n = load m' p n :=
  load_congr fun i hi ↦ h (hp i hi)

/-- The same store keeps memories equal where they are. -/
theorem store_eqOn {m m' : Mem β} (h : Set.EqOn m m' S) (p : Nat) (bs : List β) :
    Set.EqOn (store m p bs) (store m' p bs) S := by
  intro a ha
  by_cases hin : p ≤ a ∧ a < p + bs.length
  · exact (fills_store p bs).inside m m' a hin
  · rw [store_outside _ _ _ _ (by omega), store_outside _ _ _ _ (by omega)]
    exact h ha

/-- A store is confined to the sets that contain its window, and to no others. -/
theorem confined_store_iff [Nontrivial β] (c : γ) (p : Nat) (bs : List β) :
    Confined (fun m ↦ some (c, m.store p bs)) S ↔ ∀ i < bs.length, p + i ∈ S := by
  constructor
  · intro h i hi
    by_contra hout
    obtain ⟨x, hx⟩ := exists_ne bs[i]
    have hframe : store (fun _ ↦ x) p bs (p + i) = x := h.frame (fun _ ↦ x) _ rfl hout
    rw [store_inside _ p i bs hi] at hframe
    exact hx hframe.symm
  · intro h
    have hwin : ∀ a ∉ S, a ∉ {a | p ≤ a ∧ a < p + bs.length} := by
      intro a ha hwin
      have hmem := h (a - p) (by have := hwin.1; have := hwin.2; omega)
      rw [Nat.add_sub_cancel' hwin.1] at hmem
      exact ha hmem
    refine ⟨fun m ↦ ⟨_, rfl⟩, fun m r hr a ha ↦ ?_, fun m m' r r' hr hr' hm ↦ ?_⟩
    · cases hr
      exact (fills_store p bs).outside m a (hwin a ha)
    · cases hr
      cases hr'
      exact ⟨rfl, store_eqOn hm p bs⟩

/-- An operation that only reads is confined to the sets that determine its answer. -/
theorem confined_read_iff (g : Mem β → γ) : Confined (fun m ↦ some (g m, m)) S ↔
    ∀ m m' : Mem β, Set.EqOn m m' S → g m = g m' := by
  constructor
  · intro h m m' hm
    exact (h.depends m m' _ _ rfl rfl hm).1
  · intro h
    refine ⟨fun m ↦ ⟨_, rfl⟩, fun m r hr a _ ↦ ?_, fun m m' r r' hr hr' hm ↦ ?_⟩
    · cases hr
      rfl
    · cases hr
      cases hr'
      exact ⟨h m m' hm, hm⟩

/-- Reading a window is confined to the sets that contain it, and to no others. -/
theorem confined_load_iff [Nontrivial β] {g : Mem β → γ} {p n : Nat}
    (hg : ∀ m m', g m = g m' ↔ load m p n = load m' p n) :
    Confined (fun m ↦ some (g m, m)) S ↔ ∀ i < n, p + i ∈ S := by
  rw [confined_read_iff]
  constructor
  · intro h i hi
    by_contra hout
    obtain ⟨x, y, hne⟩ := exists_pair_ne β
    have heq : Set.EqOn (fun _ ↦ x) (Function.update (fun _ ↦ x) (p + i) y) S := by
      intro a ha
      have hne : a ≠ p + i := fun he ↦ hout (he ▸ ha)
      rw [Function.update_of_ne hne]
    have hload := congrArg (fun l ↦ l[i]?) ((hg _ _).mp (h _ _ heq))
    simp only [load_getElem? _ p n i hi, Function.update_self, Option.some.injEq] at hload
    exact hne hload
  · exact fun h m m' hm ↦ (hg m m').mpr (load_eqOn hm h)

end Library.Mem
