import Mathlib.Data.Finset.Card
import Mathlib.Data.Finset.Image
import Mathlib.Data.Finset.Range

/-!
# Tables of slots

A table of `n` slots, each used or free, and a value in every slot: the linear search for a free
slot, the set of used slots and the set of values they hold, under taking and dropping a slot.
-/

namespace Library

/-- Where a search of at most `k` slots from `i` on stops: at the first free slot or behind the last
slot searched. -/
def freeFrom (used : Nat → Bool) : Nat → Nat → Nat
  | 0, i => i
  | k + 1, i => if used i then freeFrom used k (i + 1) else i

/-- The search of a whole table from its first slot on. -/
def firstFree (used : Nat → Bool) (n : Nat) : Nat := freeFrom used n 0

/-- The slot behind `i` in a ring of `n` slots. -/
def nextSlot (n i : Nat) : Nat := if i + 1 = n then 0 else i + 1

/-- Where a search of at most `k` slots of a ring from `i` on stops: at the first free slot, or behind
the last slot searched. -/
def freeFromCyclic (used : Nat → Bool) (n : Nat) : Nat → Nat → Nat
  | 0, i => i
  | k + 1, i => if used i then freeFromCyclic used n k (nextSlot n i) else i

/-- The first free slot of a ring at or after slot `i`. -/
def IsFirstFrom (used : Nat → Bool) (n i ci : Nat) : Prop :=
  ∃ d < n, ci = (i + d) % n ∧ used ci = false ∧ ∀ j < d, used ((i + j) % n) = true

def usedSlots (used : Nat → Bool) (n : Nat) : Finset Nat :=
  (Finset.range n).filter fun i ↦ used i = true

/-- The values in the used slots. -/
def held {α : Type*} [DecidableEq α] (used : Nat → Bool) (val : Nat → α) (n : Nat) : Finset α :=
  (usedSlots used n).image val

section Search

variable {used : Nat → Bool}

theorem freeFrom_le (used : Nat → Bool) (k i : Nat) : freeFrom used k i ≤ i + k := by
  induction k generalizing i with
  | zero => exact Nat.le_refl i
  | succ k ih =>
    have h := ih (i + 1)
    unfold freeFrom
    split <;> omega

theorem used_of_lt_freeFrom {k i j : Nat} (hij : i ≤ j) (hj : j < freeFrom used k i) :
    used j = true := by
  induction k generalizing i with
  | zero =>
    have hji : j < i := hj
    omega
  | succ k ih =>
    unfold freeFrom at hj
    split at hj
    next hi =>
      rcases Nat.eq_or_lt_of_le hij with rfl | hlt
      · exact hi
      · exact ih hlt hj
    next => omega

theorem free_of_freeFrom_lt {k i : Nat} (h : freeFrom used k i < i + k) :
    used (freeFrom used k i) = false := by
  induction k generalizing i with
  | zero =>
    have hlt : i < i := h
    omega
  | succ k ih =>
    unfold freeFrom at h ⊢
    split at h
    next hi =>
      rw [if_pos hi]
      exact ih (by omega)
    next hi =>
      rw [if_neg hi]
      exact Bool.eq_false_of_not_eq_true hi

end Search

section Ring

variable {used : Nat → Bool} {n i k : Nat}

theorem nextSlot_eq_mod (hi : i < n) : nextSlot n i = (i + 1) % n := by
  unfold nextSlot
  by_cases h : i + 1 = n
  · rw [if_pos h, h, Nat.mod_self]
  · rw [if_neg h, Nat.mod_eq_of_lt (by omega)]

theorem nextSlot_lt (hi : i < n) : nextSlot n i < n := by
  rw [nextSlot_eq_mod hi]
  exact Nat.mod_lt _ (by omega)

theorem nextSlot_add_mod (hi : i < n) (j : Nat) : (nextSlot n i + j) % n = (i + (j + 1)) % n := by
  rw [nextSlot_eq_mod hi, Nat.mod_add_mod, Nat.add_assoc, Nat.add_comm 1 j]

/-- A search of a ring has gone over used slots only, and stops at a free one unless it has run out of
slots. -/
theorem freeFromCyclic_spec (used : Nat → Bool) (k : Nat) (hi : i < n) :
    ∃ d ≤ k, freeFromCyclic used n k i = (i + d) % n ∧ (∀ j < d, used ((i + j) % n) = true) ∧
      (d < k → used (freeFromCyclic used n k i) = false) := by
  induction k generalizing i with
  | zero => exact ⟨0, Nat.le_refl 0, (Nat.mod_eq_of_lt hi).symm, by omega, by omega⟩
  | succ k ih =>
    rw [freeFromCyclic]
    by_cases hused : used i = true
    · rw [if_pos hused]
      obtain ⟨d, hd, heq, hbefore, hfree⟩ := ih (nextSlot_lt hi)
      refine ⟨d + 1, by omega, by rw [heq, nextSlot_add_mod hi], ?_, fun hlt ↦ hfree (by omega)⟩
      intro j hj
      cases j with
      | zero => rwa [Nat.add_zero, Nat.mod_eq_of_lt hi]
      | succ j =>
        rw [← nextSlot_add_mod hi]
        exact hbefore j (by omega)
    · rw [if_neg hused]
      exact ⟨0, by omega, (Nat.mod_eq_of_lt hi).symm, by omega, fun _ ↦ by simpa using hused⟩

theorem freeFromCyclic_lt (hi : i < n) : freeFromCyclic used n k i < n := by
  obtain ⟨d, _, heq, _⟩ := freeFromCyclic_spec used k hi
  rw [heq]
  exact Nat.mod_lt _ (by omega)

-- Every slot of the ring is some way behind any other.
theorem exists_add_mod (hi : i < n) {j : Nat} (hj : j < n) : ∃ d < n, (i + d) % n = j := by
  rcases Nat.le_total i j with h | h
  · exact ⟨j - i, by omega, by rw [Nat.add_sub_cancel' h, Nat.mod_eq_of_lt hj]⟩
  · rcases Nat.eq_or_lt_of_le h with rfl | h
    · exact ⟨0, by omega, Nat.mod_eq_of_lt hj⟩
    · refine ⟨n + j - i, by omega, ?_⟩
      rw [show i + (n + j - i) = j + n by omega, Nat.add_mod_right, Nat.mod_eq_of_lt hj]

/-- A search of the whole ring finds the first free slot, if there is one. -/
theorem isFirstFrom_freeFromCyclic (hi : i < n) (hfree : ∃ j < n, used j = false) :
    IsFirstFrom used n i (freeFromCyclic used n n i) := by
  obtain ⟨d, hd, heq, hbefore, hstop⟩ := freeFromCyclic_spec used n hi
  obtain ⟨j, hj, hjfree⟩ := hfree
  obtain ⟨m, hm, hmj⟩ := exists_add_mod hi hj
  have hdn : d < n := by
    by_contra hge
    have hused := hbefore m (by omega)
    rw [hmj, hjfree] at hused
    cases hused
  exact ⟨d, hdn, heq, hstop hdn, hbefore⟩

end Ring

section Table

variable {used : Nat → Bool} {n i : Nat}

@[simp] theorem mem_usedSlots : i ∈ usedSlots used n ↔ i < n ∧ used i = true := by
  simp [usedSlots]

theorem usedSlots_card_le (used : Nat → Bool) (n : Nat) : (usedSlots used n).card ≤ n := by
  have h := Finset.card_filter_le (Finset.range n) fun i ↦ used i = true
  rwa [Finset.card_range] at h

theorem usedSlots_empty (h : ∀ i < n, used i = false) : usedSlots used n = ∅ := by
  apply Finset.filter_false_of_mem
  intro i hi
  rw [h i (Finset.mem_range.mp hi)]
  exact Bool.false_ne_true

theorem firstFree_le (used : Nat → Bool) (n : Nat) : firstFree used n ≤ n := by
  have h := freeFrom_le used n 0
  unfold firstFree
  omega

theorem used_of_lt_firstFree {j : Nat} (hj : j < firstFree used n) : used j = true :=
  used_of_lt_freeFrom (Nat.zero_le j) hj

theorem firstFree_free (h : firstFree used n < n) : used (firstFree used n) = false :=
  free_of_freeFrom_lt (k := n) (i := 0) (by rwa [Nat.zero_add])

/-- As long as the table is not full the search stops inside it. -/
theorem firstFree_lt (h : (usedSlots used n).card < n) : firstFree used n < n := by
  have hle := firstFree_le used n
  rcases Nat.eq_or_lt_of_le hle with he | hlt
  · have hall : usedSlots used n = Finset.range n := by
      apply Finset.filter_true_of_mem
      intro j hj
      exact used_of_lt_firstFree (he.symm ▸ Finset.mem_range.mp hj)
    rw [hall, Finset.card_range] at h
    omega
  · exact hlt

theorem firstFree_eq {m : Nat} (hle : m ≤ n) (hlt : ∀ j < m, used j = true)
    (hm : m < n → used m = false) : firstFree used n = m := by
  rcases Nat.lt_trichotomy (firstFree used n) m with h | h | h
  · have hfree := firstFree_free (h.trans_le hle)
    rw [hlt _ h] at hfree
    cases hfree
  · exact h
  · have hused := used_of_lt_firstFree h
    rw [hm (h.trans_le (firstFree_le ..))] at hused
    cases hused

/-- A table with one more slot in front, which is always used, and a search that leaves out the last
one. -/
theorem firstFree_behind {used' : Nat → Bool} (h0 : used' 0 = true)
    (h : ∀ i < n, used' (i + 1) = used i) (hlt : firstFree used n < n) :
    firstFree used' n = firstFree used n + 1 := by
  apply firstFree_eq hlt
  · intro j hj
    cases j with
    | zero => exact h0
    | succ j =>
      have hjm : j < firstFree used n := by omega
      rw [h j (hjm.trans hlt)]
      exact used_of_lt_firstFree hjm
  · intro _
    rw [h _ hlt]
    exact firstFree_free hlt

theorem usedSlots_take (hi : i < n) :
    usedSlots (Function.update used i true) n = insert i (usedSlots used n) := by
  ext j
  by_cases hj : j = i
  · subst hj; simp [hi]
  · simp [hj]

theorem usedSlots_drop : usedSlots (Function.update used i false) n = (usedSlots used n).erase i := by
  ext j
  by_cases hj : j = i
  · subst hj; simp
  · simp [hj]

theorem used_take (hi : i < n) (j : Nat) :
    j < n ∧ Function.update used i true j = true ↔ j = i ∨ j < n ∧ used j = true := by
  rw [← mem_usedSlots, usedSlots_take hi, Finset.mem_insert, mem_usedSlots]

theorem used_drop (j : Nat) :
    j < n ∧ Function.update used i false j = true ↔ j ≠ i ∧ j < n ∧ used j = true := by
  rw [← mem_usedSlots, usedSlots_drop, Finset.mem_erase, mem_usedSlots]

theorem usedSlots_take_card (hi : i < n) (hfree : used i = false) :
    (usedSlots (Function.update used i true) n).card = (usedSlots used n).card + 1 := by
  rw [usedSlots_take hi, Finset.card_insert_of_notMem (by simp [hfree])]

theorem usedSlots_drop_card (hi : i < n) (hused : used i = true) :
    (usedSlots (Function.update used i false) n).card + 1 = (usedSlots used n).card := by
  rw [usedSlots_drop]
  exact Finset.card_erase_add_one (by simp [hi, hused])

end Table

section Values

variable {α : Type*} [DecidableEq α] {used : Nat → Bool} {val : Nat → α} {n i : Nat} {v : α}

theorem mem_held : v ∈ held used val n ↔ ∃ i, i < n ∧ used i = true ∧ val i = v := by
  simp [held, and_assoc]

theorem val_mem_held (hi : i < n) (hused : used i = true) : val i ∈ held used val n :=
  mem_held.mpr ⟨i, hi, hused, rfl⟩

theorem held_empty (h : ∀ i < n, used i = false) : held used val n = ∅ := by
  rw [held, usedSlots_empty h, Finset.image_empty]

-- Values in free slots do not count.
theorem image_update_free (hfree : used i = false) :
    (usedSlots used n).image (Function.update val i v) = held used val n := by
  apply Finset.image_congr
  intro j hj
  have hne : j ≠ i := by
    rintro rfl
    have hused := (mem_usedSlots.mp hj).2
    rw [hfree] at hused
    cases hused
  exact Function.update_of_ne hne ..

theorem held_take (hi : i < n) (hfree : used i = false) :
    held (Function.update used i true) (Function.update val i v) n =
      insert v (held used val n) := by
  rw [held, usedSlots_take hi, Finset.image_insert, Function.update_self, image_update_free hfree]

/-- No two used slots hold one value. -/
def Distinct (used : Nat → Bool) (val : Nat → α) (n : Nat) : Prop :=
  Set.InjOn val (usedSlots used n)

omit [DecidableEq α] in
theorem Distinct.eq (h : Distinct used val n) {j : Nat} (hi : i < n) (hui : used i = true)
    (hj : j < n) (huj : used j = true) (he : val i = val j) : i = j :=
  h (mem_usedSlots.mpr ⟨hi, hui⟩) (mem_usedSlots.mpr ⟨hj, huj⟩) he

omit [DecidableEq α] in
theorem Distinct.empty (h : ∀ i < n, used i = false) : Distinct used val n := by
  intro i hi
  obtain ⟨hlt, hused⟩ := mem_usedSlots.mp hi
  rw [h i hlt] at hused
  cases hused

theorem Distinct.take (h : Distinct used val n) (hi : i < n) (hv : v ∉ held used val n) :
    Distinct (Function.update used i true) (Function.update val i v) n := by
  unfold Distinct
  rw [usedSlots_take hi]
  intro j hj k hk he
  simp only [Finset.coe_insert, Set.mem_insert_iff, Finset.mem_coe] at hj hk
  by_cases hji : j = i <;> by_cases hki : k = i
  · exact hji.trans hki.symm
  · rw [hji, Function.update_self, Function.update_of_ne hki] at he
    exact absurd (Finset.mem_image.mpr ⟨k, hk.resolve_left hki, he.symm⟩) hv
  · rw [hki, Function.update_self, Function.update_of_ne hji] at he
    exact absurd (Finset.mem_image.mpr ⟨j, hj.resolve_left hji, he⟩) hv
  · rw [Function.update_of_ne hji, Function.update_of_ne hki] at he
    exact h (hj.resolve_left hji) (hk.resolve_left hki) he

omit [DecidableEq α] in
theorem Distinct.drop (h : Distinct used val n) : Distinct (Function.update used i false) val n := by
  unfold Distinct
  rw [usedSlots_drop]
  exact h.mono (Finset.erase_subset ..)

theorem Distinct.held_drop (h : Distinct used val n) (hi : i < n) (hused : used i = true) :
    held (Function.update used i false) val n = (held used val n).erase (val i) := by
  ext v
  simp only [Finset.mem_erase, mem_held]
  constructor
  · rintro ⟨j, hj, huj, rfl⟩
    have hji : j ≠ i := by rintro rfl; simp at huj
    rw [Function.update_of_ne hji] at huj
    exact ⟨fun he ↦ hji (h.eq hj huj hi hused he), j, hj, huj, rfl⟩
  · rintro ⟨hne, j, hj, huj, rfl⟩
    have hji : j ≠ i := by rintro rfl; exact hne rfl
    exact ⟨j, hj, by rwa [Function.update_of_ne hji], rfl⟩

end Values

end Library
