import Mathlib.Data.List.Nodup
import Mathlib.Logic.Function.Basic

/-!
# Heaps and singly linked chains

A heap maps the allocated addresses to the objects there.  Every access goes through a possibly
null pointer and fails at an address that is not allocated, so a program that never fails never
uses a freed object.  A chain is the list of nodes met when the links are followed from a pointer
to the null pointer.
-/

namespace Library

/-- The objects at the allocated addresses. -/
abbrev Heap (Addr α : Type*) := Addr → Option α

namespace Heap

variable {Addr α : Type*} [DecidableEq Addr]

/-- The heap after an allocation at `a`, whose object starts as `v`. -/
def alloc (h : Heap Addr α) (a : Addr) (v : α) : Heap Addr α :=
  Function.update h a (some v)

/-- Read through a pointer. -/
def read (h : Heap Addr α) (p : Option Addr) : Option α :=
  p.bind h

/-- Update the object behind a pointer. -/
def modify (h : Heap Addr α) (p : Option Addr) (f : α → α) : Option (Heap Addr α) :=
  p.bind fun a ↦ (h a).map fun v ↦ Function.update h a (some (f v))

/-- Free the object behind a pointer; freeing the null pointer does nothing. -/
def free (h : Heap Addr α) : Option Addr → Option (Heap Addr α)
  | none => some h
  | some a => (h a).map fun _ ↦ Function.update h a none

omit [DecidableEq Addr] in
@[simp] theorem read_some (h : Heap Addr α) (a : Addr) : h.read (some a) = h a := rfl

@[simp] theorem alloc_same (h : Heap Addr α) (a : Addr) (v : α) : h.alloc a v a = some v :=
  Function.update_self ..

theorem alloc_of_ne (h : Heap Addr α) {a b : Addr} (v : α) (hb : b ≠ a) :
    h.alloc a v b = h b :=
  Function.update_of_ne hb ..

theorem free_some {h : Heap Addr α} {a : Addr} {v : α} (ha : h a = some v) :
    h.free (some a) = some (Function.update h a none) := by
  simp only [free, ha, Option.map_some]

end Heap

/-- The nodes met from pointer `p` on, with their addresses, up to the null pointer. -/
def Chain {Addr α : Type*} (next : α → Option Addr) (h : Heap Addr α) :
    Option Addr → List (Addr × α) → Prop
  | p, [] => p = none
  | p, (a, n) :: l => p = some a ∧ h a = some n ∧ Chain next h (next n) l

namespace Chain

variable {Addr α : Type*} {next : α → Option Addr} {h h' : Heap Addr α} {p : Option Addr}
  {l : List (Addr × α)}

theorem allocated (hc : Chain next h p l) : ∀ x ∈ l, h x.1 = some x.2 := by
  induction l generalizing p with
  | nil => intro x hx; simp at hx
  | cons y l ih =>
    obtain ⟨a, n⟩ := y
    intro x hx
    rcases List.mem_cons.mp hx with rfl | hx
    · exact hc.2.1
    · exact ih hc.2.2 x hx

/-- A chain only depends on the addresses of its nodes. -/
theorem congr (hc : Chain next h p l) (hag : ∀ x ∈ l, h' x.1 = h x.1) : Chain next h' p l := by
  induction l generalizing p with
  | nil => exact hc
  | cons y l ih =>
    obtain ⟨a, n⟩ := y
    refine ⟨hc.1, (hag _ List.mem_cons_self).trans hc.2.1, ih hc.2.2 fun x hx ↦ ?_⟩
    exact hag x (List.mem_cons_of_mem _ hx)

theorem eq_nil_iff (hc : Chain next h p l) : l = [] ↔ p = none := by
  cases l with
  | nil => exact ⟨fun _ ↦ hc, fun _ ↦ rfl⟩
  | cons y l => simp [hc.1]

/-- The nodes of a chain are determined by where it starts. -/
theorem unique {l' : List (Addr × α)} (hc : Chain next h p l) (hc' : Chain next h p l') : l = l' := by
  induction l generalizing p l' with
  | nil => exact (hc'.eq_nil_iff.mpr hc).symm
  | cons y l ih =>
    obtain ⟨a, n⟩ := y
    cases l' with
    | nil => exact absurd (hc'.symm.trans hc.1) (by simp)
    | cons y' l' =>
      obtain ⟨b, m⟩ := y'
      obtain rfl : a = b := Option.some.inj (hc.1.symm.trans hc'.1)
      obtain rfl : n = m := Option.some.inj (hc.2.1.symm.trans hc'.2.1)
      rw [ih hc.2.2 hc'.2.2]

theorem not_mem_of_free (hc : Chain next h p l) {a : Addr} (ha : h a = none) :
    a ∉ l.map Prod.fst := by
  intro hm
  obtain ⟨x, hx, rfl⟩ := List.mem_map.mp hm
  rw [hc.allocated x hx] at ha
  cases ha

variable [DecidableEq Addr]

theorem update_of_not_mem (hc : Chain next h p l) {a : Addr} (v : Option α)
    (ha : a ∉ l.map Prod.fst) : Chain next (Function.update h a v) p l := by
  apply hc.congr
  intro x hx
  have hne : x.1 ≠ a := by rintro rfl; exact ha (List.mem_map_of_mem hx)
  exact Function.update_of_ne hne ..

/-- The empty chain grows by one node at an address of its own. -/
theorem singleton {b : Addr} {m : α} (hm : next m = none) :
    Chain next (Function.update h b (some m)) (some b) [(b, m)] :=
  ⟨rfl, Function.update_self .., hm⟩

/-- Linking a new last node behind the old one: the old last node's link is the only change to the
nodes that were there. -/
theorem snoc {l : List (Addr × α)} {a b : Addr} {n n' m : α}
    (hc : Chain next h p (l ++ [(a, n)])) (hnd : ((l ++ [(a, n)]).map Prod.fst).Nodup)
    (hb : b ∉ (l ++ [(a, n)]).map Prod.fst) (hn : next n' = some b) (hm : next m = none) :
    Chain next (Function.update (Function.update h a (some n')) b (some m)) p
      (l ++ [(a, n'), (b, m)]) := by
  induction l generalizing p with
  | nil =>
    have hab : a ≠ b := by rintro rfl; simp at hb
    refine ⟨hc.1, ?_, hn, Function.update_self .., hm⟩
    rw [Function.update_of_ne hab, Function.update_self]
  | cons y l ih =>
    obtain ⟨c, k⟩ := y
    simp only [List.cons_append, List.map_cons, List.nodup_cons, List.mem_cons, not_or] at hnd hb
    have hca : c ≠ a := by rintro rfl; exact hnd.1 (by simp)
    refine ⟨hc.1, ?_, ih hc.2.2 hnd.2 hb.2⟩
    rw [Function.update_of_ne (Ne.symm hb.1), Function.update_of_ne hca]
    exact hc.2.1

end Chain

end Library
