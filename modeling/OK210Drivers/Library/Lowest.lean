import Mathlib.Data.Finset.Preimage
import Mathlib.Data.Int.ConditionallyCompleteOrder
import Mathlib.Data.Nat.Nth
import Mathlib.Data.Set.Finite.Basic

/-!
# Lowest-first allocation

Two pools from which the lowest free member is taken, slots `0, 1, 2, ..` and the numbers outside a
finite set, stay in step as long as they are taken from and returned to together: slot `i` always
gets the `i`-th lowest number.
-/

namespace Library

variable {base : Finset ℤ}

/-- The `i`-th lowest natural number outside of `base`. -/
noncomputable def spare (base : Finset ℤ) (i : ℕ) : ℤ :=
  Nat.nth (fun d ↦ (d : ℤ) ∉ base) i

theorem infinite_spare (base : Finset ℤ) : (Set.ofPred fun d : ℕ ↦ (d : ℤ) ∉ base).Infinite := by
  have hfin : Set.Finite {d : ℕ | (d : ℤ) ∈ base} :=
    (base.finite_toSet).preimage fun _ _ _ _ he ↦ Int.ofNat.inj he
  exact hfin.infinite_compl

theorem spare_nonneg (base : Finset ℤ) (i : ℕ) : 0 ≤ spare base i :=
  Int.natCast_nonneg _

theorem spare_notMem (base : Finset ℤ) (i : ℕ) : spare base i ∉ base :=
  Nat.nth_mem_of_infinite (infinite_spare base) i

theorem spare_strictMono (base : Finset ℤ) : StrictMono (spare base) := by
  intro i j hij
  exact Int.ofNat_lt.mpr (Nat.nth_strictMono (infinite_spare base) hij)

theorem spare_inj {i j : ℕ} : spare base i = spare base j ↔ i = j :=
  (spare_strictMono base).injective.eq_iff

theorem exists_spare {d : ℤ} (h0 : 0 ≤ d) (hd : d ∉ base) : ∃ i, spare base i = d := by
  lift d to ℕ using h0
  have hmem : d ∈ Set.range (Nat.nth fun d : ℕ ↦ (d : ℤ) ∉ base) := by
    rw [Nat.range_nth_of_infinite (infinite_spare base)]
    exact hd
  rcases hmem with ⟨i, rfl⟩
  exact ⟨i, rfl⟩

theorem spare_le (base : Finset ℤ) (i : ℕ) : spare base i ≤ i + base.card := by
  have hsplit := Finset.card_filter_add_card_filter_not (s := Finset.range (spare base i).toNat)
    fun d : ℕ ↦ (d : ℤ) ∉ base
  have hfree : ((Finset.range (spare base i).toNat).filter fun d : ℕ ↦ (d : ℤ) ∉ base).card = i := by
    rw [← Nat.count_eq_card_filter_range]
    exact Nat.count_nth_of_infinite (infinite_spare base) i
  have hbase : ((Finset.range (spare base i).toNat).filter fun d : ℕ ↦ ¬(d : ℤ) ∉ base).card ≤
      base.card := by
    apply Finset.card_le_card_of_injOn (fun d : ℕ ↦ (d : ℤ))
    · intro d hd
      exact not_not.mp (Finset.mem_filter.mp hd).2
    · exact fun _ _ _ _ he ↦ Int.ofNat.inj he
  have h0 := spare_nonneg base i
  rw [Finset.card_range] at hsplit
  omega

theorem le_spare {k : ℕ} (h : ∀ d < k, (d : ℤ) ∈ base) (i : ℕ) : (k : ℤ) + i ≤ spare base i := by
  induction i with
  | zero =>
    have h0 := spare_nonneg base 0
    by_contra hlt
    have hmem := h (spare base 0).toNat (by omega)
    rw [Int.toNat_of_nonneg h0] at hmem
    exact spare_notMem base 0 hmem
  | succ i ih =>
    have hlt := spare_strictMono base (Nat.lt_add_one i)
    omega

/-- The `i`-th of them is below `n` exactly if there are more than `i` below `n`. -/
theorem spare_lt_iff (base : Finset ℤ) {i n : ℕ} :
    spare base i < n ↔ i < Nat.count (fun d ↦ (d : ℤ) ∉ base) n := by
  rw [Nat.lt_nth_iff_count_lt (infinite_spare base)]
  exact Int.ofNat_lt

/-- When the slots below `m` are taken and `m` is not, the lowest number outside of `base` and not
taken with a slot is the `m`-th. -/
theorem isLeast_spare {taken : ℕ → Prop} {m : ℕ} (hlt : ∀ j < m, taken j) (hm : ¬taken m) :
    IsLeast {d : ℤ | 0 ≤ d ∧ d ∉ base ∧ ∀ j, taken j → spare base j ≠ d} (spare base m) := by
  refine ⟨⟨spare_nonneg base m, spare_notMem base m, fun j hj he ↦ hm (spare_inj.mp he ▸ hj)⟩, ?_⟩
  rintro d ⟨h0, hbase, hfree⟩
  rcases exists_spare h0 hbase with ⟨i, rfl⟩
  have hmi : m ≤ i := by
    by_contra hlt'
    exact hfree i (hlt i (by omega)) rfl
  exact (spare_strictMono base).monotone hmi

section Pool

variable {pool : Finset ℤ} {taken taken' : ℕ → Prop} {m : ℕ}

/-- Slot and number taken together. -/
theorem mem_insert_spare (hpool : ∀ d, d ∈ pool ↔ d ∈ base ∨ ∃ j, taken j ∧ spare base j = d)
    (ht : ∀ j, taken' j ↔ j = m ∨ taken j) (d : ℤ) :
    d ∈ insert (spare base m) pool ↔ d ∈ base ∨ ∃ j, taken' j ∧ spare base j = d := by
  rw [Finset.mem_insert, hpool]
  constructor
  · rintro (rfl | hd | ⟨j, hj, rfl⟩)
    · exact Or.inr ⟨m, (ht m).mpr (Or.inl rfl), rfl⟩
    · exact Or.inl hd
    · exact Or.inr ⟨j, (ht j).mpr (Or.inr hj), rfl⟩
  · rintro (hd | ⟨j, hj, rfl⟩)
    · exact Or.inr (Or.inl hd)
    · rcases (ht j).mp hj with rfl | hj
      · exact Or.inl rfl
      · exact Or.inr (Or.inr ⟨j, hj, rfl⟩)

/-- Slot and number returned together. -/
theorem mem_erase_spare (hpool : ∀ d, d ∈ pool ↔ d ∈ base ∨ ∃ j, taken j ∧ spare base j = d)
    (ht : ∀ j, taken' j ↔ j ≠ m ∧ taken j) (d : ℤ) :
    d ∈ pool.erase (spare base m) ↔ d ∈ base ∨ ∃ j, taken' j ∧ spare base j = d := by
  rw [Finset.mem_erase, hpool]
  constructor
  · rintro ⟨hne, hd | ⟨j, hj, rfl⟩⟩
    · exact Or.inl hd
    · exact Or.inr ⟨j, (ht j).mpr ⟨fun he ↦ hne (he ▸ rfl), hj⟩, rfl⟩
  · rintro (hd | ⟨j, hj, rfl⟩)
    · exact ⟨fun he ↦ spare_notMem base m (he ▸ hd), Or.inl hd⟩
    · have hne := (ht j).mp hj
      exact ⟨fun he ↦ hne.1 (spare_inj.mp he), Or.inr ⟨j, hne.2, rfl⟩⟩

end Pool

end Library
