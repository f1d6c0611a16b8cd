import Mathlib.Data.List.Induction
import Mathlib.Data.Set.Basic
import Mathlib.Tactic.Common

/-!
# Memory windows

A memory is what a pointer gives access to: a value at every offset.  `load` copies a window out of
a memory and `store` copies a list of values into one, as `memcpy` does; neither knows where an
object ends, so what a program may touch is a statement about windows and is proved as such.
-/

namespace Library

/-- The values at the offsets from a pointer. -/
abbrev Mem (β : Type*) := Nat → β

namespace Mem

variable {β : Type*}

/-- The `n` values from offset `p` on. -/
def load (m : Mem β) (p n : Nat) : List β :=
  (List.range n).map fun i ↦ m (p + i)

/-- `m` with the values `bs` copied to offset `p`. -/
def store (m : Mem β) (p : Nat) (bs : List β) : Mem β :=
  fun a ↦ if p ≤ a then (bs[a - p]?).getD (m a) else m a

@[simp] theorem load_length (m : Mem β) (p n : Nat) : (load m p n).length = n := by
  simp only [load, List.length_map, List.length_range]

@[simp] theorem load_zero (m : Mem β) (p : Nat) : load m p 0 = [] := rfl

theorem load_getElem (m : Mem β) (p n i : Nat) (hi : i < (load m p n).length) :
    (load m p n)[i] = m (p + i) := by
  simp only [load, List.getElem_map, List.getElem_range]

theorem load_getElem? (m : Mem β) (p n i : Nat) (hi : i < n) :
    (load m p n)[i]? = some (m (p + i)) := by
  rw [List.getElem?_eq_getElem (by rwa [load_length]), load_getElem]

@[simp] theorem store_nil (m : Mem β) (p : Nat) : store m p [] = m := by
  funext a
  simp [store]

theorem store_below (m : Mem β) (p a : Nat) (bs : List β) (h : a < p) : store m p bs a = m a := by
  rw [store, if_neg (by omega)]

theorem store_above (m : Mem β) (p a : Nat) (bs : List β) (h : p + bs.length ≤ a) :
    store m p bs a = m a := by
  rw [store, if_pos (by omega), List.getElem?_eq_none (by omega), Option.getD_none]

/-- A store changes nothing outside its window. -/
theorem store_outside (m : Mem β) (p a : Nat) (bs : List β) (h : a < p ∨ p + bs.length ≤ a) :
    store m p bs a = m a :=
  h.elim (store_below m p a bs) (store_above m p a bs)

theorem store_inside (m : Mem β) (p i : Nat) (bs : List β) (hi : i < bs.length) :
    store m p bs (p + i) = bs[i] := by
  rw [store, if_pos (by omega), Nat.add_sub_cancel_left, List.getElem?_eq_getElem hi,
    Option.getD_some]

-- Two windows with the same values.
theorem load_congr_at {m m' : Mem β} {p q n : Nat} (h : ∀ i < n, m (p + i) = m' (q + i)) :
    load m p n = load m' q n :=
  List.map_congr_left fun i hi ↦ h i (List.mem_range.mp hi)

/-- Loads of memories that agree on the window are equal. -/
theorem load_congr {m m' : Mem β} {p n : Nat} (h : ∀ i < n, m (p + i) = m' (p + i)) :
    load m p n = load m' p n :=
  load_congr_at h

theorem load_add (m : Mem β) (p a b : Nat) :
    load m p (a + b) = load m p a ++ load m (p + a) b := by
  simp only [load, List.range_add, List.map_append, List.map_map, Function.comp_def,
    Nat.add_assoc]

theorem load_append_inj {m m' : Mem β} {p n : Nat} {bs bs' : List β} :
    load m p n ++ bs = load m' p n ++ bs' ↔ load m p n = load m' p n ∧ bs = bs' := by
  constructor
  · intro h
    exact List.append_inj h (by simp only [load_length])
  · rintro ⟨hload, rfl⟩
    rw [hload]

/-- A window of `k` pieces, piece by piece. -/
theorem load_pieces_iff {m m' : Mem β} {size k : Nat} : load m 0 (size * k) = load m' 0 (size * k) ↔
    ∀ i < k, load m (size * i) size = load m' (size * i) size := by
  induction k with
  | zero => exact iff_of_true rfl nofun
  | succ k ih =>
    rw [Nat.mul_succ, load_add, load_add, load_append_inj, ih, Nat.zero_add]
    constructor
    · rintro ⟨hfront, hlast⟩ i hi
      rcases Nat.lt_succ_iff_lt_or_eq.mp hi with hlt | rfl
      · exact hfront i hlt
      · exact hlast
    · exact fun h ↦ ⟨fun i hi ↦ h i (Nat.lt_succ_of_lt hi), h k (Nat.lt_succ_self k)⟩

theorem take_load (m : Mem β) (p n k : Nat) : (load m p n).take k = load m p (min k n) := by
  simp only [load, ← List.map_take, List.take_range]

/-- A window inside a freshly stored one holds the values stored there. -/
theorem load_store_window (m : Mem β) (p i n : Nat) (bs : List β) (h : i + n ≤ bs.length) :
    load (store m p bs) (p + i) n = (bs.drop i).take n := by
  apply List.ext_getElem
  · simp only [load_length, List.length_take, List.length_drop]
    omega
  · intro j hj _
    rw [load_length] at hj
    rw [load_getElem, Nat.add_assoc, store_inside m p (i + j) bs (by omega), List.getElem_take,
      List.getElem_drop]

@[simp] theorem load_store_same (m : Mem β) (p : Nat) (bs : List β) :
    load (store m p bs) p bs.length = bs := by
  simpa using load_store_window m p 0 bs.length bs (by omega)

theorem load_store_same_of_eq (m : Mem β) (p n : Nat) (bs : List β) (h : bs.length = n) :
    load (store m p bs) p n = bs := by
  rw [← h, load_store_same]

/-- A store to a disjoint window does not change a load. -/
theorem load_store_disjoint (m : Mem β) (p q n : Nat) (bs : List β)
    (h : q + n ≤ p ∨ p + bs.length ≤ q) : load (store m p bs) q n = load m q n :=
  load_congr fun i hi ↦ store_outside m p (q + i) bs (by omega)

/-- Two stores to adjacent windows are one store of both lists. -/
theorem store_store_adjacent (m : Mem β) (p : Nat) (as bs : List β) :
    store (store m p as) (p + as.length) bs = store m p (as ++ bs) := by
  funext a
  by_cases hlo : a < p
  · rw [store_below _ _ _ _ (by omega), store_below _ _ _ _ hlo, store_below _ _ _ _ hlo]
  · obtain ⟨i, rfl⟩ := Nat.exists_eq_add_of_le (Nat.not_lt.mp hlo)
    by_cases ha : i < as.length
    · rw [store_below _ _ _ _ (by omega), store_inside _ _ _ _ ha,
        store_inside _ _ _ _ (by rw [List.length_append]; omega), List.getElem_append_left ha]
    · obtain ⟨j, rfl⟩ := Nat.exists_eq_add_of_le (Nat.not_lt.mp ha)
      by_cases hb : j < bs.length
      · rw [← Nat.add_assoc, store_inside _ _ _ _ hb, Nat.add_assoc,
          store_inside _ _ _ _ (by rw [List.length_append]; omega),
          List.getElem_append_right (by omega)]
        simp only [Nat.add_sub_cancel_left]
      · rw [store_above _ _ _ _ (by omega), store_above _ _ _ _ (by omega),
          store_above _ _ _ _ (by rw [List.length_append]; omega)]

/-- Stores to disjoint windows commute. -/
theorem store_store_disjoint (m : Mem β) (p q : Nat) (as bs : List β)
    (h : p + as.length ≤ q ∨ q + bs.length ≤ p) :
    store (store m p as) q bs = store (store m q bs) p as := by
  funext a
  by_cases hp : p ≤ a ∧ a < p + as.length
  · obtain ⟨i, rfl⟩ := Nat.exists_eq_add_of_le hp.1
    rw [store_outside _ _ _ _ (by omega), store_inside _ _ _ _ (by omega),
      store_inside _ _ _ _ (by omega)]
  · rw [store_outside _ p _ _ (by omega)]
    by_cases hq : q ≤ a ∧ a < q + bs.length
    · obtain ⟨i, rfl⟩ := Nat.exists_eq_add_of_le hq.1
      rw [store_inside _ _ _ _ (by omega), store_inside _ _ _ _ (by omega)]
    · rw [store_outside _ q _ _ (by omega), store_outside _ p _ _ (by omega),
        store_outside _ q _ _ (by omega)]

/-- A store over the whole window of an earlier one. -/
theorem store_store_same (m : Mem β) (p : Nat) (as bs : List β) (h : as.length = bs.length) :
    store (store m p as) p bs = store m p bs := by
  funext a
  by_cases hp : p ≤ a ∧ a < p + bs.length
  · obtain ⟨i, rfl⟩ := Nat.exists_eq_add_of_le hp.1
    rw [store_inside _ _ _ _ (by omega), store_inside _ _ _ _ (by omega)]
  · rw [store_outside _ _ _ _ (by omega), store_outside _ _ _ _ (by omega),
      store_outside _ _ _ _ (by omega)]

/-- A store inside of a freshly stored window replaces a part of what was stored. -/
theorem store_store_part (m : Mem β) (p : Nat) (as bs cs bs' : List β)
    (h : bs.length = bs'.length) :
    store (store m p (as ++ bs ++ cs)) (p + as.length) bs' = store m p (as ++ bs' ++ cs) := by
  rw [← store_store_adjacent, ← store_store_adjacent, List.length_append,
    store_store_disjoint _ _ _ _ _ (by omega), store_store_same _ _ _ _ h,
    ← store_store_adjacent m p (as ++ bs') cs, ← store_store_adjacent m p as bs', h,
    List.length_append]

/-! ## Copies from one memory to another -/

theorem store_load_adjacent (m src : Mem β) (p q a b : Nat) :
    store (store m p (load src q a)) (p + a) (load src (q + a) b) = store m p (load src q (a + b)) := by
  have hlen : p + a = p + (load src q a).length := by rw [load_length]
  rw [hlen, store_store_adjacent, ← load_add]

theorem store_load_inside (m src : Mem β) (p q n i : Nat) (hi : i < n) :
    store m p (load src q n) (p + i) = src (q + i) := by
  have hlt : i < (load src q n).length := by rwa [load_length]
  rw [store_inside m p i _ hlt, load_getElem]

/-- A window inside a copied one is the copy of that window. -/
theorem load_store_load (m src : Mem β) (p q n i j : Nat) (h : i + j ≤ n) :
    load (store m p (load src q n)) (p + i) j = load src (q + i) j := by
  apply load_congr_at
  intro x hx
  rw [Nat.add_assoc, store_load_inside m src p q n (i + x) (by omega), Nat.add_assoc]

/-! ## Histories of stores -/

/-- A memory after a sequence of stores, each given by its offset and its values. -/
def storeAll (m : Mem β) (ws : List (Nat × List β)) : Mem β :=
  ws.foldl (fun m w ↦ m.store w.1 w.2) m

/-- What the latest store that covers offset `a` put there, or what `m` holds when none does; the
stores are listed newest first. -/
def lastStored (m : Mem β) (a : Nat) : List (Nat × List β) → β
  | [] => m a
  | (p, bs) :: ws =>
    if h : p ≤ a ∧ a - p < bs.length then bs[a - p] else lastStored m a ws

theorem storeAll_append (m : Mem β) (ws vs : List (Nat × List β)) :
    storeAll m (ws ++ vs) = storeAll (storeAll m ws) vs := by
  simp only [storeAll, List.foldl_append]

/-- After any sequence of stores every offset holds what was last stored there. -/
theorem storeAll_apply (m : Mem β) (ws : List (Nat × List β)) (a : Nat) :
    storeAll m ws a = lastStored m a ws.reverse := by
  induction ws using List.reverseRecOn with
  | nil => rfl
  | append_singleton ws w ih =>
    rw [storeAll_append, List.reverse_append]
    change store (storeAll m ws) w.1 w.2 a = lastStored m a (w :: ws.reverse)
    rw [lastStored]
    split
    · rename_i h
      obtain ⟨i, rfl⟩ := Nat.exists_eq_add_of_le h.1
      simp only [Nat.add_sub_cancel_left] at h ⊢
      exact store_inside _ _ _ _ h.2
    · rename_i h
      rw [store_outside _ _ _ _ (by omega), ih]

/-! ## What is left of the initial contents -/

/-- `f` puts at the offsets in `S` what does not depend on the memory before, and changes nothing
elsewhere. -/
structure Fills (f : Mem β → Mem β) (S : Set Nat) : Prop where
  inside : ∀ m m' a, a ∈ S → f m a = f m' a
  outside : ∀ m a, a ∉ S → f m a = m a

theorem fills_store (p : Nat) (bs : List β) :
    Fills (fun m ↦ store m p bs) {a | p ≤ a ∧ a < p + bs.length} where
  inside m m' a ha := by
    obtain ⟨i, rfl⟩ := Nat.exists_eq_add_of_le ha.1
    have hi : i < bs.length := Nat.lt_of_add_lt_add_left ha.2
    rw [store_inside m p i bs hi, store_inside m' p i bs hi]
  outside m a ha := by
    apply store_outside
    by_contra h
    exact ha ⟨by omega, by omega⟩

theorem Fills.comp {f g : Mem β → Mem β} {S T : Set Nat} (hg : Fills g T) (hf : Fills f S) :
    Fills (fun m ↦ g (f m)) (S ∪ T) where
  inside m m' a ha := by
    by_cases hT : a ∈ T
    · exact hg.inside _ _ a hT
    · rw [hg.outside _ a hT, hg.outside _ a hT]
      exact hf.inside m m' a (ha.resolve_right hT)
  outside m a ha := by
    rw [hg.outside _ a fun hT ↦ ha (Or.inr hT), hf.outside _ a fun hS ↦ ha (Or.inl hS)]

-- A store inside of what has been filled.
theorem Fills.patch {f : Mem β → Mem β} {S : Set Nat} (h : Fills f S) {p : Nat} {bs : List β}
    (hp : ∀ i < bs.length, p + i ∈ S) : Fills (fun m ↦ store (f m) p bs) S := by
  have hwin : S ∪ {a | p ≤ a ∧ a < p + bs.length} = S := by
    apply Set.union_eq_left.mpr
    rintro a ⟨hlo, hhi⟩
    have hmem := hp (a - p) (by omega)
    rwa [Nat.add_sub_cancel' hlo] at hmem
  have hcomp := (fills_store p bs).comp h
  rwa [hwin] at hcomp

/-- A window shows nothing of the memory before exactly if all of it has been filled. -/
theorem Fills.load_eq_iff [Nontrivial β] {f : Mem β → Mem β} {S : Set Nat} (h : Fills f S)
    (p n : Nat) : (∀ m m', load (f m) p n = load (f m') p n) ↔ ∀ i < n, p + i ∈ S := by
  constructor
  · intro hload i hi
    by_contra hout
    obtain ⟨x, y, hne⟩ := exists_pair_ne β
    have hget := congrArg (fun l ↦ l[i]?) (hload (fun _ ↦ x) fun _ ↦ y)
    simp only [load_getElem? _ p n i hi, h.outside _ _ hout, Option.some.injEq] at hget
    exact hne hget
  · exact fun hin m m' ↦ load_congr fun i hi ↦ h.inside m m' _ (hin i hi)

end Mem

end Library
