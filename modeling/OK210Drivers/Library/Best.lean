import Mathlib.Order.Lattice

/-!
# The running best of a loop

A loop goes over candidates, keeps the one with the least score so far and replaces it only by a
strictly better one.  Scores are compared as their images in a linear order.
-/

namespace Library

section Spec

variable {ι α β : Type*} [LinearOrder β]

/-- What a loop over `l` that starts from `b` may end with: no score is below the one that is kept, and
that one is the start's or a better candidate's. -/
structure IsBest (key : α → β) (f : ι → α) (b : α × ι) (l : List ι) (r : α × ι) : Prop where
  le_start : key r.1 ≤ key b.1
  le_score : ∀ i ∈ l, key r.1 ≤ key (f i)
  found : r = b ∨ r.2 ∈ l ∧ r.1 = f r.2 ∧ key r.1 < key b.1

variable {key : α → β} {f : ι → α} {b r : α × ι} {i : ι} {l : List ι}

-- A candidate that is better than the start takes its place.
theorem IsBest.cons_of_lt (hi : key (f i) < key b.1) (h : IsBest key f (f i, i) l r) :
    IsBest key f b (i :: l) r := by
  have hlt : key r.1 < key b.1 := lt_of_le_of_lt h.le_start hi
  refine ⟨le_of_lt hlt, List.forall_mem_cons.mpr ⟨h.le_start, h.le_score⟩, Or.inr ?_⟩
  rcases h.found with rfl | ⟨hmem, heq, _⟩
  · exact ⟨List.mem_cons_self .., rfl, hlt⟩
  · exact ⟨List.mem_cons_of_mem _ hmem, heq, hlt⟩

theorem IsBest.cons_of_ge (hi : key b.1 ≤ key (f i)) (h : IsBest key f b l r) :
    IsBest key f b (i :: l) r := by
  refine ⟨h.le_start, List.forall_mem_cons.mpr ⟨le_trans h.le_start hi, h.le_score⟩, ?_⟩
  exact h.found.imp_right fun hf ↦ ⟨List.mem_cons_of_mem _ hf.1, hf.2⟩

end Spec

section Loop

variable {ι α β : Type*} [LT α] [DecidableLT α]

/-- The best score and the candidate that has it, starting from `b`. -/
def best (f : ι → α) (b : α × ι) (l : List ι) : α × ι :=
  l.foldl (fun b i ↦ if f i < b.1 then (f i, i) else b) b

variable [LinearOrder β] {key : α → β} {f : ι → α} {b : α × ι} {i : ι} {l : List ι}

theorem best_cons : best f b (i :: l) = best f (if f i < b.1 then (f i, i) else b) l := rfl

theorem isBest_best (hkey : ∀ x y, x < y ↔ key x < key y) : IsBest key f b l (best f b l) := by
  induction l generalizing b with
  | nil => exact ⟨le_refl _, fun _ hi ↦ absurd hi List.not_mem_nil, Or.inl rfl⟩
  | cons i l ih =>
    rw [best_cons]
    by_cases hi : f i < b.1
    · rw [if_pos hi]
      exact ih.cons_of_lt ((hkey _ _).mp hi)
    · rw [if_neg hi]
      exact ih.cons_of_ge (le_of_not_gt fun h ↦ hi ((hkey _ _).mpr h))

/-- When a candidate is better than the start, the loop ends with one that is best of all. -/
theorem best_of_lt (hkey : ∀ x y, x < y ↔ key x < key y) (h : ∃ i ∈ l, f i < b.1) :
    f (best f b l).2 < b.1 ∧ ∀ i ∈ l, key (f (best f b l).2) ≤ key (f i) := by
  obtain ⟨i, hi, hlt⟩ := h
  have hbest := isBest_best hkey (f := f) (b := b) (l := l)
  rcases hbest.found with hstart | ⟨_, heq, hlt'⟩
  · have hge := hbest.le_score i hi
    rw [hstart] at hge
    exact absurd ((hkey _ _).mp hlt) (not_lt_of_ge hge)
  · rw [← heq]
    exact ⟨(hkey _ _).mpr hlt', hbest.le_score⟩

/-- When none is, it ends where it started. -/
theorem best_of_not_lt (hkey : ∀ x y, x < y ↔ key x < key y) (h : ∀ i ∈ l, ¬f i < b.1) :
    best f b l = b := by
  rcases (isBest_best hkey (f := f) (b := b) (l := l)).found with hstart | ⟨hmem, heq, hlt⟩
  · exact hstart
  · rw [← hkey, heq] at hlt
    exact absurd hlt (h _ hmem)

end Loop

end Library
