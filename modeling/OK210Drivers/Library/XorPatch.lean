import Mathlib.Logic.Function.Basic
import OK210Drivers.Library.Mem

/-!
# Patching a memory bit by bit

A patch inverts the bits of a pattern at one address.  Patches commute, and those at one address add up.
-/

namespace Library.Mem

variable {w : Nat}

/-- Invert the bits of a pattern at an address. -/
def xorAt (m : Mem (BitVec w)) (a : Nat) (bits : BitVec w) : Mem (BitVec w) :=
  Function.update m a (m a ^^^ bits)

/-- Apply a list of patches, the last one first. -/
def xorAll (ps : List (Nat × BitVec w)) (m : Mem (BitVec w)) : Mem (BitVec w) :=
  ps.foldr (fun x m ↦ m.xorAt x.1 x.2) m

/-- The bits that a list of patches inverts at an address. -/
def patternAt (ps : List (Nat × BitVec w)) (a : Nat) : BitVec w :=
  ps.foldr (fun x bits ↦ if x.1 = a then bits ^^^ x.2 else bits) 0

@[simp] theorem xorAll_nil (m : Mem (BitVec w)) : xorAll [] m = m := rfl

@[simp] theorem xorAll_cons (x : Nat × BitVec w) (ps : List (Nat × BitVec w)) (m : Mem (BitVec w)) :
    xorAll (x :: ps) m = (xorAll ps m).xorAt x.1 x.2 := rfl

theorem xorAll_apply (ps : List (Nat × BitVec w)) (m : Mem (BitVec w)) (a : Nat) :
    xorAll ps m a = m a ^^^ patternAt ps a := by
  induction ps with
  | nil => exact (BitVec.xor_zero).symm
  | cons x ps ih =>
    show Function.update (xorAll ps m) x.1 (xorAll ps m x.1 ^^^ x.2) a =
      m a ^^^ (if x.1 = a then patternAt ps a ^^^ x.2 else patternAt ps a)
    by_cases hx : x.1 = a
    · rw [if_pos hx, hx, Function.update_self, ih, BitVec.xor_assoc]
    · rw [if_neg hx, Function.update_of_ne (Ne.symm hx), ih]

/-- What two lists of patches invert. -/
theorem patternAt_append (ps qs : List (Nat × BitVec w)) (a : Nat) :
    patternAt (ps ++ qs) a = patternAt ps a ^^^ patternAt qs a := by
  induction ps with
  | nil => exact BitVec.zero_xor.symm
  | cons x ps ih =>
    show (if x.1 = a then patternAt (ps ++ qs) a ^^^ x.2 else patternAt (ps ++ qs) a) =
      (if x.1 = a then patternAt ps a ^^^ x.2 else patternAt ps a) ^^^ patternAt qs a
    by_cases hx : x.1 = a
    · rw [if_pos hx, if_pos hx, ih, BitVec.xor_assoc, BitVec.xor_assoc, BitVec.xor_comm (patternAt qs a)]
    · rw [if_neg hx, if_neg hx, ih]

/-- Moving all patches moves the pattern. -/
theorem patternAt_map_add (ps : List (Nat × BitVec w)) (p a : Nat) :
    patternAt (ps.map fun x ↦ (p + x.1, x.2)) (p + a) = patternAt ps a := by
  induction ps with
  | nil => rfl
  | cons x ps ih =>
    show (if p + x.1 = p + a then patternAt _ (p + a) ^^^ x.2 else patternAt _ (p + a)) = _
    simp only [Nat.add_left_cancel_iff, ih]
    rfl

theorem patternAt_eq_zero {ps : List (Nat × BitVec w)} {a : Nat} (h : ∀ x ∈ ps, x.1 ≠ a) :
    patternAt ps a = 0 := by
  induction ps with
  | nil => rfl
  | cons x ps ih =>
    show (if x.1 = a then _ else patternAt ps a) = 0
    rw [if_neg (h x (List.mem_cons_self ..)), ih fun y hy ↦ h y (List.mem_cons_of_mem _ hy)]

theorem patternAt_flatMap_eq_zero {α : Type*} {xs : List α} {f : α → List (Nat × BitVec w)} {a : Nat}
    (h : ∀ x ∈ xs, patternAt (f x) a = 0) : patternAt (xs.flatMap f) a = 0 := by
  induction xs with
  | nil => rfl
  | cons x xs ih =>
    rw [List.flatMap_cons, patternAt_append, h x (List.mem_cons_self ..),
      ih fun y hy ↦ h y (List.mem_cons_of_mem _ hy)]
    exact BitVec.zero_xor

end Library.Mem
