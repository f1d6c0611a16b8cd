import OK210Drivers.Library.IntExpr
import OK210Drivers.Touch.Averages
import OK210Drivers.Touch.ProcWrite

/-!
# The calibrated position

`touch_timer_fire` transforms the accumulated samples with the seven numbers that were last written to
`/proc/driver/micc_ts`, which nothing checks.
-/

open Library

namespace OK210Drivers.Touch

-- The numbers are indexed by numerals.
local instance seven_ne_zero : NeZero 7 := ⟨by decide⟩

/-- The build with `CONFIG_ANDROID`. -/
def Config.droid (cfg : Config) : Config := { cfg with android := true }

inductive CalEvent
  | driver (e : Event)
  | write (behind buffer : List UInt8) (left : Nat)

/-- The driver's steps, and the writes to its file in `/proc`. -/
inductive CalStep (cfg : Config) : System → CalEvent → System → Prop
  | driver {S e T} : Step cfg S e T → CalStep cfg S (.driver e) T
  | write {S : System} {behind buffer left ret a} :
      ts_proc_write behind buffer left S.driver.pointercal = some (ret, a) →
      CalStep cfg S (.write behind buffer left) { S with driver := { S.driver with pointercal := a } }

-- What the two expressions are made of.
inductive Operand
  | x
  | y
  | a (i : Fin 7)

def operands (s : State) : Operand → BitVec 32
  | .x => s.xp
  | .y => s.yp
  | .a i => s.pointercal i

-- `(a[i]+(a[j]*x)+(a[k]*y))/a6`
def transformation (i j k : Fin 7) : IntExpr Operand :=
  .op .div
    (.op .add
      (.op .add (.var (.a i)) (.op .mul (.var (.a j)) (.var .x)))
      (.op .mul (.var (.a k)) (.var .y)))
    (.var (.a 6))

def xp_expr : IntExpr Operand := transformation 2 0 1
def yp_expr : IntExpr Operand := transformation 5 3 4

/-- The expressions are computed without a division by zero, every part of them exactly, and the
results are what the driver keeps. -/
structure Calibrated (s t : State) : Prop where
  xp : ∀ f ∈ xp_expr.parts, f.Computed (operands s)
  yp : ∀ f ∈ yp_expr.parts, f.Computed (operands s)
  xp_old : xp_expr.exact (operands s) = some t.xp_old.toInt
  yp_old : yp_expr.exact (operands s) = some t.yp_old.toInt

/-- A step that evaluates the expressions does so exactly. -/
def ExactStep (cfg : Config) (S : System) (e : CalEvent) (T : System) : Prop :=
  ∀ d, e = .driver d → Reports cfg S.driver d → Calibrated S.driver T.driver

/-- No sum or product of `(c+(cx*x)+(cy*y))/d` leaves the range of `int`, and the division is neither by
zero nor that of the least `int` by -1. -/
structure InRange (c cx cy d x y : Int) : Prop where
  divisor : d ≠ 0
  fst : FitsIn 32 (cx * x)
  snd : FitsIn 32 (cy * y)
  half : FitsIn 32 (c + cx * x)
  sum : FitsIn 32 (c + cx * x + cy * y)
  quotient : ¬(c + cx * x + cy * y = -2 ^ 31 ∧ d = -1)

def State.inRange (s : State) (i j k : Fin 7) : Prop :=
  InRange (s.pointercal i).toInt (s.pointercal j).toInt (s.pointercal k).toInt
    (s.pointercal 6).toInt s.xp.toInt s.yp.toInt

/-- The position is evaluated only with numbers that suit the samples. -/
def SuitableNumbers (cfg : Config) (_ : List CalEvent) (S : System) (e : CalEvent) : Prop :=
  ∀ d, e = .driver d → Reports cfg S.driver d → S.driver.inRange 2 0 1 ∧ S.driver.inRange 5 3 4

section Range

variable {n d : Int}

theorem natAbs_le_of_fitsIn (h : FitsIn 32 n) : n.natAbs ≤ 2 ^ 31 := by
  unfold FitsIn at h
  omega

-- The only quotient that is out of range.
theorem fitsIn_tdiv_iff (hn : FitsIn 32 n) (hd : d ≠ 0) :
    FitsIn 32 (n.tdiv d) ↔ ¬(n = -2 ^ 31 ∧ d = -1) := by
  by_cases hd1 : d = -1
  · rw [hd1, Int.tdiv_neg, Int.tdiv_one]
    unfold FitsIn at hn ⊢
    omega
  · refine iff_of_true ?_ fun h ↦ hd1 h.2
    by_cases h1 : d = 1
    · rw [h1, Int.tdiv_one]
      exact hn
    · have habs : (n.tdiv d).natAbs = n.natAbs / d.natAbs := Int.natAbs_tdiv n d
      have hdiv : n.natAbs / d.natAbs ≤ n.natAbs / 2 := Nat.div_le_div_left (by omega) (by omega)
      have hle := natAbs_le_of_fitsIn hn
      unfold FitsIn
      omega

variable {s : State} {i j k : Fin 7}

theorem fits_var (n : Operand) : (IntExpr.var n).Fits (operands s) :=
  ⟨_, rfl, fitsIn_toInt _⟩

theorem fits_some_iff {e : IntExpr Operand} (h : e.exact (operands s) = some n) :
    e.Fits (operands s) ↔ FitsIn 32 n := by
  constructor
  · rintro ⟨m, hm, hfits⟩
    obtain rfl := Option.some.inj (h.symm.trans hm)
    exact hfits
  · exact fun hfits ↦ ⟨n, h, hfits⟩

theorem fits_product_iff (n : Operand) :
    (IntExpr.op .mul (.var (.a k)) (.var n)).Fits (operands s) ↔
      FitsIn 32 ((s.pointercal k).toInt * (operands s n).toInt) :=
  fits_some_iff rfl

theorem fits_half_iff :
    (IntExpr.op .add (.var (.a i)) (.op .mul (.var (.a j)) (.var .x))).Fits (operands s) ↔
      FitsIn 32 ((s.pointercal i).toInt + (s.pointercal j).toInt * s.xp.toInt) :=
  fits_some_iff rfl

theorem fits_sum_iff :
    (IntExpr.op .add (.op .add (.var (.a i)) (.op .mul (.var (.a j)) (.var .x)))
      (.op .mul (.var (.a k)) (.var .y))).Fits (operands s) ↔
      FitsIn 32 ((s.pointercal i).toInt + (s.pointercal j).toInt * s.xp.toInt +
        (s.pointercal k).toInt * s.yp.toInt) :=
  fits_some_iff rfl

-- The division, once the sum is in range.
theorem fits_transformation_iff
    (hsum : FitsIn 32 ((s.pointercal i).toInt + (s.pointercal j).toInt * s.xp.toInt +
      (s.pointercal k).toInt * s.yp.toInt)) :
    (transformation i j k).Fits (operands s) ↔ (s.pointercal 6).toInt ≠ 0 ∧
      ¬((s.pointercal i).toInt + (s.pointercal j).toInt * s.xp.toInt +
        (s.pointercal k).toInt * s.yp.toInt = -2 ^ 31 ∧ (s.pointercal 6).toInt = -1) := by
  by_cases h0 : (s.pointercal 6).toInt = 0
  · have hnone : (transformation i j k).exact (operands s) = none := if_pos h0
    refine iff_of_false ?_ fun h ↦ h.1 h0
    rintro ⟨m, hm, _⟩
    rw [hnone] at hm
    cases hm
  · have hsome : (transformation i j k).exact (operands s) = some (Int.tdiv _ _) := if_neg h0
    rw [fits_some_iff hsome, ← fitsIn_tdiv_iff hsum h0]
    exact (and_iff_right h0).symm

theorem forall_fits_iff :
    (∀ f ∈ (transformation i j k).parts, f.Fits (operands s)) ↔ s.inRange i j k := by
  have hdiv := @fits_transformation_iff s i j k
  unfold transformation at hdiv ⊢
  simp only [IntExpr.forall_parts_op, IntExpr.forall_parts_var, fits_var, and_true, true_and]
  rw [fits_sum_iff, fits_half_iff, fits_product_iff, fits_product_iff]
  constructor
  · rintro ⟨hq, hs, ⟨hh, hx⟩, hy⟩
    obtain ⟨h0, hq⟩ := (hdiv hs).mp hq
    exact ⟨h0, hx, hy, hh, hs, hq⟩
  · rintro ⟨h0, hx, hy, hh, hs, hq⟩
    exact ⟨(hdiv hs).mpr ⟨h0, hq⟩, hs, ⟨hh, hx⟩, hy⟩

/-- The machine computes a transformation exactly when the numbers suit the samples. -/
theorem forall_computed_transformation_iff :
    (∀ f ∈ (transformation i j k).parts, f.Computed (operands s)) ↔ s.inRange i j k :=
  (IntExpr.forall_computed_iff _).trans forall_fits_iff

-- What the driver computes, when there is a result at all.
theorem machine_transformation (h : s.pointercal 6 ≠ 0) :
    (transformation i j k).machine (operands s) = some ((s.pointercal i + s.pointercal j * s.xp +
      s.pointercal k * s.yp).sdiv (s.pointercal 6)) :=
  if_neg h

end Range

section Steps

variable {cfg : Config} {s t : State} {S T : System} {d : Event}
  {data0 data1 data0' data1' : BitVec 32}

/-- The driver keeps the position that it has worked out. -/
def Keeps (s t : State) : Prop := t.xp_old = (calibrate s).1 ∧ t.yp_old = (calibrate s).2

theorem touch_timer_fire_keeps (ha : cfg.android = true) (hu : cfg.mayUse s = true)
    (hc : s.count ≠ 0) (hpen : updown data0 data1 = true) :
    Keeps s (touch_timer_fire cfg data0 data1 s) := by
  unfold touch_timer_fire report_position
  rw [if_neg (mayUse_iff.mp hu), if_pos hpen]
  simp only [if_pos hc, if_pos ha]
  exact ⟨rfl, rfl⟩

theorem stylus_updown_keeps (ha : cfg.android = true) (hc : s.count ≠ 0)
    (hu : cfg.mayUse s = true ∨ 0 < s.ADC_LOCK) (hpen : updown data0 data1 = true)
    (hpen' : updown data0' data1' = true) :
    Keeps s (stylus_updown cfg data0 data1 data0' data1' s) := by
  unfold stylus_updown
  simp only [if_pos hpen]
  by_cases hmay : cfg.mayUse s = true
  · rw [if_neg (mayUse_iff.mp hmay)]
    exact touch_timer_fire_keeps ha hmay hc hpen'
  · rw [if_pos (not_not.mp (mt mayUse_iff.mpr hmay)), s3c_ts_adc_lock_free (hu.resolve_left hmay)]
    let s' : State := { s with ADC_LOCK := s.ADC_LOCK - 1, adc_lock_id := LOCK_TS }
    have hmay' : cfg.mayUse s' = true := mayUse_iff.mpr fun h ↦ h.2 rfl
    exact touch_timer_fire_keeps (s := s') ha hmay' hc hpen'

theorem step_keeps (ha : cfg.android = true) (hs : Step cfg S d T) (hr : Reports cfg S.driver d) :
    Keeps S.driver T.driver := by
  obtain ⟨hc, data, hfires, hpen⟩ := hr
  cases hs with
  | updown data0 data1 data0' data1' =>
    rw [fires] at hfires
    split at hfires
    next h =>
      obtain rfl := Option.some.inj hfires
      rw [Bool.and_eq_true, Bool.or_eq_true, decide_eq_true_eq] at h
      exact stylus_updown_keeps ha hc h.1 h.2 hpen
    next => cases hfires
  | timer data0 data1 _ =>
    rw [fires] at hfires
    split at hfires
    next h =>
      obtain rfl := Option.some.inj hfires
      let s' : State := { S.driver with touch_timer := false }
      exact touch_timer_fire_keeps (s := s') ha h hc hpen
    next => cases hfires
  | action _ _ => cases hfires
  | acquire _ _ _ => cases hfires
  | release _ _ => cases hfires

theorem calibrated_iff (hk : Keeps s t) :
    Calibrated s t ↔ s.inRange 2 0 1 ∧ s.inRange 5 3 4 := by
  rw [← forall_computed_transformation_iff, ← forall_computed_transformation_iff]
  constructor
  · rintro ⟨hx, hy, _, _⟩
    exact ⟨hx, hy⟩
  · rintro ⟨hx, hy⟩
    have hdiv : s.pointercal 6 ≠ 0 := by
      intro h0
      apply (forall_computed_transformation_iff.mp hx).divisor
      rw [h0]
      rfl
    obtain ⟨v, hv, hxp⟩ := hx _ (IntExpr.mem_parts_self _)
    obtain ⟨u, hu, hyp⟩ := hy _ (IntExpr.mem_parts_self _)
    rw [machine_transformation hdiv] at hv hu
    refine ⟨hx, hy, ?_, ?_⟩
    · refine hxp.trans ?_
      rw [← Option.some.inj hv, hk.1]
      rfl
    · refine hyp.trans ?_
      rw [← Option.some.inj hu, hk.2]
      rfl

theorem exactStep_iff {e : CalEvent} (hs : CalStep cfg.droid S e T) (es : List CalEvent) :
    SuitableNumbers cfg.droid es S e ↔ ExactStep cfg.droid S e T := by
  cases hs with
  | driver hs =>
    constructor
    · intro h d' hd' hr
      cases hd'
      exact (calibrated_iff (step_keeps rfl hs hr)).mpr (h _ rfl hr)
    · intro h d' hd' hr
      cases hd'
      exact (calibrated_iff (step_keeps rfl hs hr)).mp (h _ rfl hr)
  | write _ => exact iff_of_true (fun _ h ↦ by cases h) (fun _ h ↦ by cases h)

end Steps

/-- The position is computed exactly, without a division by zero, in just the runs in which the numbers
that were written suit the samples. -/
theorem calibration_iff (cfg : Config) {es : List CalEvent} {S : System} :
    GuardedRun (CalStep cfg.droid) (SuitableNumbers cfg.droid) System.init es S ↔
      RunWhere (CalStep cfg.droid) (fun _ S e T ↦ ExactStep cfg.droid S e T) System.init es S := by
  apply RunWhere.iff_of_invariant (fun _ _ ↦ True) trivial
  · exact fun _ _ _ _ _ _ _ ↦ trivial
  · exact fun es _ _ _ _ hs ↦ exactStep_iff hs es

-- `1 0 0 0 1 0 0`, which makes the divisor 0.
def zero_divisor : List UInt8 := [49, 32, 48, 32, 48, 32, 48, 32, 49, 32, 48, 32, 48]

/-- After these numbers are written, the first sample is divided by zero. -/
theorem divides_by_zero :
    ∃ es S T, Run (CalStep s3c_ts_default_cfg.droid) System.init es S ∧
      CalStep s3c_ts_default_cfg.droid S (.driver (.updown 0 0 0 0)) T ∧
      xp_expr.machine (operands S.driver) = none ∧
      ¬ExactStep s3c_ts_default_cfg.droid S (.driver (.updown 0 0 0 0)) T := by
  have h₀ : Run (CalStep s3c_ts_default_cfg.droid) System.init _ _ :=
    .snoc .nil (@CalStep.write _ _ [] zero_divisor 0 13 _ rfl)
  have h₁ := h₀.snoc (.driver (.updown 0 0 0 0))
  have h₂ := h₁.snoc (.driver (.action 100 100))
  have hnone : ∀ S T, xp_expr.machine (operands S.driver) = none →
      Reports s3c_ts_default_cfg.droid S.driver (.updown 0 0 0 0) →
      ¬ExactStep s3c_ts_default_cfg.droid S (.driver (.updown 0 0 0 0)) T := by
    intro S T hm hr h
    obtain ⟨v, hv, _⟩ := (h _ rfl hr).xp _ (IntExpr.mem_parts_self _)
    rw [hm] at hv
    cases hv
  exact ⟨_, _, _, h₂, .driver (.updown 0 0 0 0), rfl, hnone _ _ rfl ⟨by decide, _, rfl, rfl⟩⟩

end OK210Drivers.Touch
