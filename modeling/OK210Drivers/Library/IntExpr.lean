import Mathlib.Algebra.Group.Int.Defs
import Mathlib.Algebra.Group.Nat.Defs
import Mathlib.Data.Nat.Basic

/-!
# Expressions of machine integers

An expression of signed `w`-bit integers and its exact counterpart over the integers.  The machine
computes the exact value, and so that of every part, exactly when no part leaves the range or divides
by zero.
-/

namespace Library

inductive IntOp
  | add
  | mul
  | div

inductive IntExpr (ν : Type*)
  | var (n : ν)
  | op (o : IntOp) (a b : IntExpr ν)

-- Division truncates.
def IntOp.exact : IntOp → Int → Int → Option Int
  | .add, x, y => some (x + y)
  | .mul, x, y => some (x * y)
  | .div, x, y => if y = 0 then none else some (x.tdiv y)

def IntOp.machine {w : Nat} : IntOp → BitVec w → BitVec w → Option (BitVec w)
  | .add, x, y => some (x + y)
  | .mul, x, y => some (x * y)
  | .div, x, y => if y = 0 then none else some (x.sdiv y)

/-- A number in the range of signed `w`-bit integers. -/
def FitsIn (w : Nat) (n : Int) : Prop := -2 ^ w ≤ 2 * n ∧ 2 * n < 2 ^ w

namespace IntExpr

variable {ν α : Type*} {w : Nat}

def eval (op : IntOp → α → α → Option α) (ρ : ν → α) : IntExpr ν → Option α
  | .var n => some (ρ n)
  | .op o a b => (a.eval op ρ).bind fun x ↦ (b.eval op ρ).bind fun y ↦ op o x y

/-- The expression and its parts. -/
def parts : IntExpr ν → List (IntExpr ν)
  | .var n => [.var n]
  | .op o a b => .op o a b :: (a.parts ++ b.parts)

def machine (ρ : ν → BitVec w) (e : IntExpr ν) : Option (BitVec w) := e.eval IntOp.machine ρ

def exact (ρ : ν → BitVec w) (e : IntExpr ν) : Option Int :=
  e.eval IntOp.exact fun n ↦ (ρ n).toInt

/-- The machine computes the exact value. -/
def Computed (ρ : ν → BitVec w) (e : IntExpr ν) : Prop :=
  ∃ v, e.machine ρ = some v ∧ e.exact ρ = some v.toInt

/-- The exact value exists and is in range. -/
def Fits (ρ : ν → BitVec w) (e : IntExpr ν) : Prop := ∃ n, e.exact ρ = some n ∧ FitsIn w n

end IntExpr

section Ops

variable {w : Nat}

theorem fitsIn_toInt (x : BitVec w) : FitsIn w x.toInt :=
  ⟨BitVec.le_two_mul_toInt, BitVec.two_mul_toInt_lt⟩

theorem bmod_eq_self {n : Int} (h : FitsIn w n) : n.bmod (2 ^ w) = n := by
  unfold FitsIn at h
  apply Int.bmod_eq_of_le_mul_two
  · push_cast
    omega
  · push_cast
    omega

/-- The machine's operations are the exact ones modulo `2 ^ w`. -/
theorem IntOp.machine_toInt (o : IntOp) (x y : BitVec w) :
    (o.machine x y).map BitVec.toInt =
      (o.exact x.toInt y.toInt).map fun n ↦ n.bmod (2 ^ w) := by
  cases o with
  | add => exact congrArg some (BitVec.toInt_add x y)
  | mul => exact congrArg some (BitVec.toInt_mul x y)
  | div =>
    have hzero : y.toInt = 0 ↔ y = 0 := by
      rw [← BitVec.toInt_inj, BitVec.ofNat_eq_ofNat, BitVec.toInt_zero]
    rw [machine, exact]
    by_cases hy : y = 0
    · rw [if_pos hy, if_pos (hzero.mpr hy)]
      rfl
    · rw [if_neg hy, if_neg (mt hzero.mp hy)]
      exact congrArg some (BitVec.toInt_sdiv x y)

theorem IntOp.computed_iff (o : IntOp) (x y : BitVec w) :
    (∃ v, o.machine x y = some v ∧ o.exact x.toInt y.toInt = some v.toInt) ↔
      ∃ n, o.exact x.toInt y.toInt = some n ∧ FitsIn w n := by
  have hop := o.machine_toInt x y
  constructor
  · rintro ⟨v, _, hv⟩
    exact ⟨v.toInt, hv, fitsIn_toInt v⟩
  · rintro ⟨n, hn, hfits⟩
    rw [hn, Option.map_some, bmod_eq_self hfits, Option.map_eq_some_iff] at hop
    obtain ⟨v, hv, rfl⟩ := hop
    exact ⟨v, hv, hn⟩

end Ops

namespace IntExpr

variable {ν : Type*} {w : Nat} {ρ : ν → BitVec w} {a b : IntExpr ν}

theorem mem_parts_self (e : IntExpr ν) : e ∈ e.parts := by
  cases e with
  | var n => exact List.mem_singleton_self _
  | op o a b => exact List.mem_cons_self ..

theorem forall_parts_var {P : IntExpr ν → Prop} {n : ν} :
    (∀ f ∈ (var n : IntExpr ν).parts, P f) ↔ P (var n) :=
  List.forall_mem_singleton

theorem forall_parts_op {P : IntExpr ν → Prop} {o : IntOp} :
    (∀ f ∈ (op o a b).parts, P f) ↔ P (op o a b) ∧ (∀ f ∈ a.parts, P f) ∧ ∀ f ∈ b.parts, P f := by
  rw [parts, List.forall_mem_cons, List.forall_mem_append]

theorem computed_op_iff {o : IntOp} (ha : Computed ρ a) (hb : Computed ρ b) :
    Computed ρ (op o a b) ↔ Fits ρ (op o a b) := by
  obtain ⟨x, hx, hx'⟩ := ha
  obtain ⟨y, hy, hy'⟩ := hb
  have hm : (op o a b).machine ρ = o.machine x y := by
    show (a.machine ρ).bind _ = _
    rw [hx, Option.bind_some]
    show (b.machine ρ).bind _ = _
    rw [hy, Option.bind_some]
  have he : (op o a b).exact ρ = o.exact x.toInt y.toInt := by
    show (a.exact ρ).bind _ = _
    rw [hx', Option.bind_some]
    show (b.exact ρ).bind _ = _
    rw [hy', Option.bind_some]
  unfold Computed Fits
  rw [hm, he]
  exact o.computed_iff x y

/-- The machine computes every part of an expression exactly when the exact values of all of them
are in range. -/
theorem forall_computed_iff (e : IntExpr ν) :
    (∀ f ∈ e.parts, Computed ρ f) ↔ ∀ f ∈ e.parts, Fits ρ f := by
  induction e with
  | var n =>
    rw [forall_parts_var, forall_parts_var]
    exact iff_of_true ⟨ρ n, rfl, rfl⟩ ⟨(ρ n).toInt, rfl, fitsIn_toInt _⟩
  | op o a b iha ihb =>
    rw [forall_parts_op, forall_parts_op, iha, ihb]
    refine and_congr_left fun h ↦ computed_op_iff ?_ ?_
    · exact iha.mpr h.1 a a.mem_parts_self
    · exact ihb.mpr h.2 b b.mem_parts_self

end IntExpr

end Library
