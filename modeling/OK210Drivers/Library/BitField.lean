import Mathlib.Data.List.Basic

/-!
# Bit fields of a word

Values that are placed into disjoint fields of one word read back, and the other bits of the word stay
zero.
-/

namespace Library

/-- A run of bits inside a word. -/
structure BitField (w : Nat) where
  offset : Nat
  length : Nat
  fits : offset + length ≤ w

namespace BitField

variable {w : Nat}

def Has (f : BitField w) (i : Nat) : Prop := f.offset ≤ i ∧ i < f.offset + f.length

instance (f : BitField w) (i : Nat) : Decidable (f.Has i) := inferInstanceAs (Decidable (_ ∧ _))

def Disjoint (f g : BitField w) : Prop := ∀ i, f.Has i → ¬g.Has i

def get (f : BitField w) (v : BitVec w) : BitVec f.length := v.extractLsb' f.offset f.length

def place (f : BitField w) (x : BitVec f.length) : BitVec w := x.setWidth w <<< f.offset

/-- A field and the value that goes there. -/
structure Filled (w : Nat) where
  field : BitField w
  value : BitVec field.length

def pack : List (Filled w) → BitVec w
  | [] => 0
  | p :: l => p.field.place p.value ||| pack l

variable {f g : BitField w} {i : Nat}

theorem getLsbD_get (v : BitVec w) :
    (f.get v).getLsbD i = (decide (i < f.length) && v.getLsbD (f.offset + i)) :=
  BitVec.getLsbD_extractLsb' _ _ _ _

theorem getLsbD_place (x : BitVec f.length) :
    (f.place x).getLsbD i = (decide (f.Has i) && x.getLsbD (i - f.offset)) := by
  have hfits := f.fits
  rw [place, BitVec.getLsbD_shiftLeft, BitVec.getLsbD_setWidth]
  by_cases hi : f.Has i
  · have hlt : i < w := Nat.lt_of_lt_of_le hi.2 hfits
    have hsub : i - f.offset < w := by omega
    have hge : ¬i < f.offset := Nat.not_lt.mpr hi.1
    simp [hi, hlt, hsub, hge]
  · rw [decide_eq_false hi, Bool.false_and]
    by_cases hlt : i < f.offset
    · simp [hlt]
    · have hout : f.length ≤ i - f.offset := by
        rw [Has, not_and, Nat.not_lt] at hi
        have hend := hi (Nat.le_of_not_lt hlt)
        omega
      simp [BitVec.getLsbD_of_ge x _ hout]

theorem get_or (v u : BitVec w) : f.get (v ||| u) = f.get v ||| f.get u := by
  apply BitVec.eq_of_getLsbD_eq
  intro i hi
  simp only [getLsbD_get, BitVec.getLsbD_or, Bool.and_or_distrib_left]

theorem get_place (x : BitVec f.length) : f.get (f.place x) = x := by
  apply BitVec.eq_of_getLsbD_eq
  intro i hi
  have hhas : f.Has (f.offset + i) := ⟨Nat.le_add_right _ _, Nat.add_lt_add_left hi _⟩
  rw [getLsbD_get, getLsbD_place, decide_eq_true hi, decide_eq_true hhas, Nat.add_sub_cancel_left]
  rfl

theorem get_eq_zero {v : BitVec w} (h : ∀ i, f.Has i → v.getLsbD i = false) : f.get v = 0 := by
  apply BitVec.eq_of_getLsbD_eq
  intro i hi
  have hbit := h (f.offset + i) ⟨Nat.le_add_right _ _, Nat.add_lt_add_left hi _⟩
  rw [getLsbD_get, hbit, Bool.and_false]
  exact BitVec.getLsbD_zero.symm

variable {l : List (Filled w)}

theorem getLsbD_pack (h : ∀ p ∈ l, ¬p.field.Has i) : (pack l).getLsbD i = false := by
  induction l with
  | nil => exact BitVec.getLsbD_zero
  | cons p l ih =>
    rw [List.forall_mem_cons] at h
    rw [pack, BitVec.getLsbD_or, getLsbD_place, decide_eq_false h.1, ih h.2]
    rfl

/-- Every field of the word holds the value that was placed there. -/
theorem get_pack (h : l.Pairwise fun p q ↦ p.field.Disjoint q.field) {p : Filled w} (hp : p ∈ l) :
    p.field.get (pack l) = p.value := by
  induction l with
  | nil => exact absurd hp List.not_mem_nil
  | cons q l ih =>
    rw [List.pairwise_cons] at h
    rw [pack, get_or]
    rcases List.mem_cons.mp hp with rfl | hmem
    · have hrest : p.field.get (pack l) = 0 :=
        get_eq_zero fun i hi ↦ getLsbD_pack fun q hq ↦ h.1 q hq i hi
      rw [get_place, hrest]
      exact BitVec.or_zero
    · have hfirst : p.field.get (q.field.place q.value) = 0 := by
        apply get_eq_zero
        intro i hi
        rw [getLsbD_place, decide_eq_false fun hq ↦ h.1 p hmem i hq hi, Bool.false_and]
      rw [hfirst, ih h.2 hmem]
      exact BitVec.zero_or

end BitField

end Library
