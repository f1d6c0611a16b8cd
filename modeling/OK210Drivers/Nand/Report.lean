import Mathlib.Tactic.IntervalCases
import OK210Drivers.Library.XorPatch
import OK210Drivers.Nand.Controller

/-!
# What the controller reports and what the driver makes of it

The error registers say that the data is clean, name up to one, four or eight errors by position and bit
pattern, or say that there are more.
-/

open Library

namespace OK210Drivers.Nand

/-- What the error registers say about a piece of data. -/
inductive Report
  | clean
  | errors (es : List (Nat × Byte))
  | uncorrectable
  deriving DecidableEq

/-- The bit that the MLC formats set for a page that holds 0xff only. -/
def free_page (t : NandType) (r : ErrorRegs) : Prop :=
  match t with
  | .mlc4 => (r.nfmeccerr0 >>> 29) &&& 0x1 ≠ 0
  | .mlc8 => (r.nf8eccerr0 >>> 29) &&& 0x1 ≠ 0
  | _ => False

instance (t : NandType) (r : ErrorRegs) : Decidable (free_page t r) :=
  match t with
  | .unknown => inferInstanceAs (Decidable False)
  | .slc => inferInstanceAs (Decidable False)
  | .mlc4 => inferInstanceAs (Decidable (_ ≠ _))
  | .mlc8 => inferInstanceAs (Decidable (_ ≠ _))

/-- The position and the bit pattern of the error with number `k`. -/
def error_at (t : NandType) (r : ErrorRegs) (k : Nat) : Nat × Byte :=
  match t, k with
  | .slc, 0 => (((r.nfmeccerr0 >>> 7) &&& 0x7ff).toNat, 1 <<< ((r.nfmeccerr0 >>> 4) &&& 0x7).toNat)
  | .mlc4, 0 => (position r.nfmeccerr0 0, byteOf r.nfmlcbitpt 0)
  | .mlc4, 1 => (position r.nfmeccerr0 16, byteOf r.nfmlcbitpt 1)
  | .mlc4, 2 => (position r.nfmeccerr1 0, byteOf r.nfmlcbitpt 2)
  | .mlc4, 3 => (position r.nfmeccerr1 16, byteOf r.nfmlcbitpt 3)
  | .mlc8, 0 => (position r.nf8eccerr0 0, byteOf r.nfmlc8bitpt0 0)
  | .mlc8, 1 => (position r.nf8eccerr0 15, byteOf r.nfmlc8bitpt0 1)
  | .mlc8, 2 => (position r.nf8eccerr1 0, byteOf r.nfmlc8bitpt0 2)
  | .mlc8, 3 => (position r.nf8eccerr1 11, byteOf r.nfmlc8bitpt0 3)
  | .mlc8, 4 => (position r.nf8eccerr1 22, byteOf r.nfmlc8bitpt1 0)
  | .mlc8, 5 => (position r.nf8eccerr2 0, byteOf r.nfmlc8bitpt1 1)
  | .mlc8, 6 => (position r.nf8eccerr2 11, byteOf r.nfmlc8bitpt1 2)
  | .mlc8, 7 => (position r.nf8eccerr2 22, byteOf r.nfmlc8bitpt1 3)
  | _, _ => (0, 0)

/-- How many errors a format can correct. -/
def correctable : NandType → Nat
  | .unknown => 0
  | .slc => 1
  | .mlc4 => 4
  | .mlc8 => 8

def report (t : NandType) (r : ErrorRegs) : Report :=
  let e := (err_type t r).toNat
  if t = .unknown then .uncorrectable
  else if free_page t r ∨ e = 0 then .clean
  else if e ≤ correctable t then .errors ((List.range e).map (error_at t r))
  else .uncorrectable

/-- The five data bytes that the 4-bit format looks at, as if they were of the OOB area. -/
def taken_for_blank (t : NandType) (dat : Mem Byte) (p : Nat) : Prop :=
  t = .mlc4 ∧ dat (p + 17) = 0xff ∧ dat (p + 26) = 0xff ∧ dat (p + 35) = 0xff ∧
    dat (p + 44) = 0xff ∧ dat (p + 54) = 0xff

instance (t : NandType) (dat : Mem Byte) (p : Nat) : Decidable (taken_for_blank t dat p) :=
  inferInstanceAs (Decidable (_ ∧ _))

/-- The return value for a report and the data corrected as it says. -/
def outcome (rep : Report) (dat : Mem Byte) (p : Nat) : Int × Mem Byte :=
  match rep with
  | .clean => (0, dat)
  | .errors es => (es.length, Mem.xorAll (es.map fun x ↦ (p + x.1, x.2)) dat)
  | .uncorrectable => (-1, dat)

section Correct

variable (r : ErrorRegs) (dat : Mem Byte) (p : Nat)

-- The corrections are patches; unfolded, each of them holds the memory before it twice.
theorem flip_eq_xorAt : flip = Mem.xorAt := rfl

theorem correct_slc : correct .slc r dat p = outcome (report .slc r) dat p := by
  have hlt : (err_type .slc r).toNat < 4 := by
    show (r.nfmeccerr0 &&& 0x3).toNat < 4
    rw [BitVec.toNat_and]
    exact Nat.lt_of_le_of_lt Nat.and_le_right (by decide)
  unfold correct report
  generalize (err_type .slc r).toNat = e at hlt
  interval_cases e <;> rfl

theorem correct_mlc4 : correct .mlc4 r dat p =
    outcome (if taken_for_blank .mlc4 dat p then .clean else report .mlc4 r) dat p := by
  have hlt : (err_type .mlc4 r).toNat < 8 := by
    show ((r.nfmeccerr0 >>> 26) &&& 0x7).toNat < 8
    rw [BitVec.toNat_and]
    exact Nat.lt_of_le_of_lt Nat.and_le_right (by decide)
  have hskip : (decide ((r.nfmeccerr0 >>> 29) &&& 0x1 ≠ 0) || decide (dat (p + 17) = 0xff ∧
      dat (p + 26) = 0xff ∧ dat (p + 35) = 0xff ∧ dat (p + 44) = 0xff ∧ dat (p + 54) = 0xff)) =
      decide (free_page .mlc4 r ∨ taken_for_blank .mlc4 dat p) := by
    rw [Bool.decide_or]
    simp only [free_page, taken_for_blank, true_and]
    rfl
  unfold correct report
  dsimp only
  rw [hskip]
  simp only [flip_eq_xorAt]
  generalize (err_type .mlc4 r).toNat = e at hlt
  by_cases hblank : taken_for_blank .mlc4 dat p
  · rw [if_pos (decide_eq_true (Or.inr hblank)), if_pos hblank]
    rfl
  by_cases hfree : free_page .mlc4 r
  · rw [if_pos (decide_eq_true (Or.inl hfree)), if_neg hblank, if_neg (by decide), if_pos (Or.inl hfree)]
    rfl
  rw [if_neg (by simp [hblank, hfree]), if_neg hblank, if_neg (by decide)]
  by_cases hzero : e = 0
  · rw [if_pos (Or.inr hzero), hzero]
    rfl
  rw [if_neg (by simp [hfree, hzero])]
  by_cases hfew : e ≤ correctable .mlc4
  · rw [if_pos hfew]
    have hle : e ≤ 4 := hfew
    interval_cases e
    · exact absurd rfl hzero
    all_goals
      simp only [outcome, List.range, List.range.loop, List.map_cons, List.map_nil, error_at,
        Mem.xorAll_cons, Mem.xorAll_nil, List.length_cons, List.length_nil]
      rfl
  · rw [if_neg hfew]
    have hmany : 4 < e := Nat.lt_of_not_le hfew
    interval_cases e <;> rfl

theorem correct_mlc8 : correct .mlc8 r dat p = outcome (report .mlc8 r) dat p := by
  have hlt : (err_type .mlc8 r).toNat < 16 := by
    show ((r.nf8eccerr0 >>> 25) &&& 0xf).toNat < 16
    rw [BitVec.toNat_and]
    exact Nat.lt_of_le_of_lt Nat.and_le_right (by decide)
  have hskip : decide ((r.nf8eccerr0 >>> 29) &&& 0x1 ≠ 0) = decide (free_page .mlc8 r) := rfl
  unfold correct report
  dsimp only
  rw [hskip]
  simp only [flip_eq_xorAt]
  generalize (err_type .mlc8 r).toNat = e at hlt
  by_cases hfree : free_page .mlc8 r
  · rw [if_pos (decide_eq_true hfree), if_neg (by decide), if_pos (Or.inl hfree)]
    rfl
  rw [if_neg (by simp [hfree]), if_neg (by decide)]
  by_cases hzero : e = 0
  · rw [if_pos (Or.inr hzero), hzero]
    rfl
  rw [if_neg (by simp [hfree, hzero])]
  by_cases hfew : e ≤ correctable .mlc8
  · rw [if_pos hfew]
    have hle : e ≤ 8 := hfew
    interval_cases e
    · exact absurd rfl hzero
    all_goals
      simp only [outcome, List.range, List.range.loop, List.map_cons, List.map_nil, error_at,
        Mem.xorAll_cons, Mem.xorAll_nil, List.length_cons, List.length_nil]
      rfl
  · rw [if_neg hfew]
    have hmany : 8 < e := Nat.lt_of_not_le hfew
    interval_cases e <;> rfl

/-- The driver does what the registers say, but for data that it takes for a blank OOB area. -/
theorem correct_eq_outcome (t : NandType) : correct t r dat p =
    outcome (if taken_for_blank t dat p then .clean else report t r) dat p := by
  cases t with
  | unknown =>
    rw [if_neg fun h ↦ by cases h.1]
    rfl
  | slc =>
    rw [if_neg fun h ↦ by cases h.1]
    exact correct_slc r dat p
  | mlc4 => exact correct_mlc4 r dat p
  | mlc8 =>
    rw [if_neg fun h ↦ by cases h.1]
    exact correct_mlc8 r dat p

/-- A correctable report names at least one error. -/
theorem report_errors_pos {t : NandType} {r : ErrorRegs} {es : List (Nat × Byte)}
    (h : report t r = .errors es) : 0 < es.length := by
  unfold report at h
  dsimp only at h
  split at h
  · cases h
  split at h
  · cases h
  · rename_i hclean
    split at h
    · cases h
      rw [List.length_map, List.length_range]
      exact Nat.pos_of_ne_zero fun h0 ↦ hclean (Or.inr h0)
    · cases h

end Correct

/-- Every report is followed in the 512 bytes at `p`: clean data is accepted, errors in these bytes are
corrected bit by bit, and everything else is refused. -/
structure FollowsReport (t : NandType) (r : ErrorRegs) (dat : Mem Byte) (p : Nat) : Prop where
  clean : (correct t r dat p).1 = 0 ∧ (∀ a < 512, (correct t r dat p).2 (p + a) = dat (p + a)) ↔
    report t r = .clean
  errors : ∀ es, report t r = .errors es → (∀ x ∈ es, x.1 < 512) →
    (correct t r dat p).1 = es.length ∧
      ∀ a < 512, (correct t r dat p).2 (p + a) = dat (p + a) ^^^ Mem.patternAt es a
  other : report t r = .uncorrectable ∨ (∃ es, report t r = .errors es ∧ ∃ x ∈ es, 512 ≤ x.1) →
    (correct t r dat p).1 = -1 ∧ ∀ a < 512, (correct t r dat p).2 (p + a) = dat (p + a)

/-- Data that is taken for a blank OOB area is clean, and every error reported is in the 512 bytes. -/
def Handled (t : NandType) (r : ErrorRegs) (dat : Mem Byte) (p : Nat) : Prop :=
  (taken_for_blank t dat p → report t r = .clean) ∧
    ∀ es, report t r = .errors es → ∀ x ∈ es, x.1 < 512

section Follows

variable {t : NandType} {r : ErrorRegs} {dat : Mem Byte} {p : Nat}

theorem followsReport_clean (hrep : report t r = .clean) (heq : correct t r dat p = (0, dat)) :
    FollowsReport t r dat p where
  clean := by
    rw [heq]
    exact iff_of_true ⟨rfl, fun _ _ ↦ rfl⟩ hrep
  errors := by
    intro es hes
    rw [hrep] at hes
    cases hes
  other := by
    rintro (hun | ⟨es, hes, _⟩)
    · rw [hrep] at hun
      cases hun
    · rw [hrep] at hes
      cases hes

theorem followsReport_uncorrectable (hrep : report t r = .uncorrectable)
    (heq : correct t r dat p = (-1, dat)) : FollowsReport t r dat p where
  clean := by
    rw [heq, hrep]
    exact iff_of_false (fun h ↦ absurd h.1 (by decide : ¬(-1 : Int) = 0)) (fun h ↦ by cases h)
  errors := by
    intro es hes
    rw [hrep] at hes
    cases hes
  other := by
    intro _
    rw [heq]
    exact ⟨rfl, fun _ _ ↦ rfl⟩

theorem followsReport_errors {es : List (Nat × Byte)} (hrep : report t r = .errors es)
    (heq : correct t r dat p = outcome (.errors es) dat p) (hin : ∀ x ∈ es, x.1 < 512) :
    FollowsReport t r dat p where
  clean := by
    have hpos := report_errors_pos hrep
    rw [heq, hrep]
    refine iff_of_false (fun h ↦ ?_) (fun h ↦ by cases h)
    have hret : (es.length : Int) = 0 := h.1
    omega
  errors := by
    intro es' hes' _
    rw [hrep] at hes'
    cases hes'
    rw [heq]
    refine ⟨rfl, fun a _ ↦ ?_⟩
    show Mem.xorAll (es.map fun x ↦ (p + x.1, x.2)) dat (p + a) = _
    rw [Mem.xorAll_apply, Mem.patternAt_map_add]
  other := by
    rintro (hun | ⟨es', hes', x, hx, hout⟩)
    · rw [hrep] at hun
      cases hun
    · rw [hrep] at hes'
      cases hes'
      have hlt := hin x hx
      omega

/-- The driver follows every report but those of errors in data that it takes for a blank OOB area, and
those of errors behind the 512 bytes. -/
theorem followsReport_iff (t : NandType) (r : ErrorRegs) (dat : Mem Byte) (p : Nat) :
    FollowsReport t r dat p ↔ Handled t r dat p := by
  have heq := correct_eq_outcome r dat p t
  constructor
  · intro h
    refine ⟨fun hblank ↦ ?_, fun es hes x hx ↦ ?_⟩
    · rw [if_pos hblank] at heq
      apply h.clean.mp
      rw [heq]
      exact ⟨rfl, fun _ _ ↦ rfl⟩
    · by_contra hout
      have hret := (h.other (Or.inr ⟨es, hes, x, hx, by omega⟩)).1
      rw [heq] at hret
      by_cases hblank : taken_for_blank t dat p
      · rw [if_pos hblank] at hret
        exact absurd hret (by decide : (0 : Int) ≠ -1)
      · rw [if_neg hblank, hes] at hret
        have hlen : (es.length : Int) = -1 := hret
        omega
  · rintro ⟨hblank, hin⟩
    by_cases hb : taken_for_blank t dat p
    · rw [if_pos hb] at heq
      exact followsReport_clean (hblank hb) heq
    · rw [if_neg hb] at heq
      cases hrep : report t r with
      | clean =>
        rw [hrep] at heq
        exact followsReport_clean hrep heq
      | errors es =>
        rw [hrep] at heq
        exact followsReport_errors hrep heq (hin es hrep)
      | uncorrectable =>
        rw [hrep] at heq
        exact followsReport_uncorrectable hrep heq

end Follows

/-- One error in byte 0 of a chunk that else holds 0xff only: the 4-bit format leaves it as it is and
reports none. -/
theorem error_left_in_place :
    let r : ErrorRegs := ⟨0x04000000, 0, 0x01, 0, 0, 0, 0, 0⟩
    let dat : Mem Byte := fun a ↦ if a = 0 then 0xfe else 0xff
    report .mlc4 r = .errors [(0, 0x01)] ∧ (correct .mlc4 r dat 0).1 = 0 ∧
      (correct .mlc4 r dat 0).2 0 = 0xfe ∧ ¬FollowsReport .mlc4 r dat 0 := by
  intro r dat
  have hrep : report .mlc4 r = .errors [(0, 0x01)] := by decide
  refine ⟨hrep, by decide, by decide, fun h ↦ ?_⟩
  have hret := (h.errors _ hrep (by decide)).1
  exact absurd hret (by decide)

end OK210Drivers.Nand
