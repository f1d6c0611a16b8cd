import Mathlib.Algebra.Group.Nat.Defs
import Mathlib.Data.Fin.VecNotation
import Mathlib.Data.Fintype.Basic
import Mathlib.Tactic.FinCases
import OK210Drivers.Library.Best

/-!
# The clock source of the MMC host

`sdhci_s3c_set_clock` takes the source with the least difference between the wanted rate and the rate that
the source can be divided down to.  The difference is unsigned: a source that is too fast for every
divider has a difference just below `2 ^ 32`, and the less the faster it is.
-/

open Library

namespace OK210Drivers.Mmc

abbrev MAX_BUS_CLK : Nat := 4
def UINT_MAX : BitVec 32 := 0xffffffff

/-- What is not in the repository: the field of `CONTROL2` that selects the clock, and what
`clk_get_rate` makes of a null pointer. -/
structure Platform where
  SELBASECLK_MASK : BitVec 32
  SELBASECLK_SHIFT : Nat
  null_rate : BitVec 32

/-- The clocks that are present, with their rates. -/
abbrev Clocks := Fin MAX_BUS_CLK → Option (BitVec 32)

/-- The driver's data, two registers, and the clocks for which `cfg_card` was called, if it is there. -/
structure Host where
  clk_bus : Clocks
  cur_clk : BitVec 32
  max_clk : BitVec 32
  timeout_clk : BitVec 32
  clock_control : BitVec 16
  control2 : BitVec 32
  cfg_card : Bool
  configured : List (BitVec 32)

def clk_get_rate (p : Platform) (clk : Option (BitVec 32)) : BitVec 32 := clk.getD p.null_rate

def get_curclk (p : Platform) (ctrl2 : BitVec 32) : BitVec 32 :=
  (ctrl2 &&& p.SELBASECLK_MASK) >>> p.SELBASECLK_SHIFT

def select_baseclk (p : Platform) (ctrl2 clk : BitVec 32) : BitVec 32 :=
  (ctrl2 &&& ~~~p.SELBASECLK_MASK) ||| (clk <<< p.SELBASECLK_SHIFT)

def sdhci_s3c_check_sclk (p : Platform) (h : Host) : Host :=
  if get_curclk p h.control2 ≠ h.cur_clk then
    { h with control2 := select_baseclk p h.control2 h.cur_clk }
  else h

def sdhci_s3c_get_max_clk (p : Platform) (h : Host) : BitVec 32 × Host :=
  let h := sdhci_s3c_check_sclk p h
  let max := (List.finRange MAX_BUS_CLK).foldl (fun max clk ↦
    match h.clk_bus clk with
    | none => max
    | some rate => if rate > max then rate else max) 0
  (max, h)

def sdhci_s3c_get_timeout_clk (p : Platform) (h : Host) : BitVec 32 × Host :=
  let r := sdhci_s3c_get_max_clk p h
  (r.1 / 1000000, r.2)

-- `for (div = 1; div < 256; div *= 2)`, with the number of turns left.
def div_loop (rate wanted : BitVec 32) : Nat → BitVec 32 → BitVec 32
  | 0, div => div
  | turns + 1, div => if rate / div ≤ wanted then div else div_loop rate wanted turns (div * 2)

def sdhci_s3c_consider_clock (clk_bus : Clocks) (wanted : BitVec 32) (src : Fin MAX_BUS_CLK) :
    BitVec 32 :=
  match clk_bus src with
  | none => UINT_MAX
  | some rate => wanted - rate / div_loop rate wanted 8 1

-- The loop of `sdhci_s3c_set_clock`: `best` and `best_src`.
def best_clock (clk_bus : Clocks) (clock : BitVec 32) : BitVec 32 × Fin MAX_BUS_CLK :=
  (List.finRange MAX_BUS_CLK).foldl (fun best src ↦
    let delta := sdhci_s3c_consider_clock clk_bus clock src
    if delta < best.1 then (delta, src) else best) (UINT_MAX, 0)

-- What the driver keeps of a source.
def src_index (src : Fin MAX_BUS_CLK) : BitVec 32 := BitVec.ofNat 32 src.val

def change_source (p : Platform) (best_src : Fin MAX_BUS_CLK) (h : Host) : Host :=
  let h := { h with
    clock_control := 0
    cur_clk := src_index best_src
    max_clk := clk_get_rate p (h.clk_bus best_src) }
  let r := sdhci_s3c_get_timeout_clk p h
  { r.2 with
    timeout_clk := r.1
    control2 := select_baseclk p r.2.control2 (src_index best_src) }

def sdhci_s3c_set_clock (p : Platform) (clock : BitVec 32) (h : Host) : Host :=
  if clock = 0 then h
  else
    let best_src := (best_clock h.clk_bus clock).2
    let h := if h.cur_clk ≠ src_index best_src then change_source p best_src h else h
    if h.cfg_card then { h with configured := h.configured ++ [clock] } else h

/-! ## The closest clock -/

/-- A rate that a divider up to 256 makes of `rate` and that is not above the wanted one. -/
def Reaches (clock rate : BitVec 32) (v : Nat) : Prop :=
  (∃ k ≤ 8, v = rate.toNat / 2 ^ k) ∧ v ≤ clock.toNat

def CanReach (clk_bus : Clocks) (clock : BitVec 32) : Prop :=
  ∃ i rate v, clk_bus i = some rate ∧ Reaches clock rate v

/-- The source is present.  If any can reach a rate, its best one is the largest; and if none can, its
slowest rate is the smallest. -/
def Closest (clk_bus : Clocks) (clock : BitVec 32) (i : Fin MAX_BUS_CLK) : Prop :=
  ∃ rate, clk_bus i = some rate ∧
    (CanReach clk_bus clock → ∃ v, Reaches clock rate v ∧
      ∀ j r u, clk_bus j = some r → Reaches clock r u → u ≤ v) ∧
    (¬CanReach clk_bus clock → ∀ j r, clk_bus j = some r → rate.toNat / 256 ≤ r.toNat / 256)

/-- Some source can reach a rate, or all the sources have one slowest rate; and when every difference is
`UINT_MAX`, source 0 is present. -/
def Separable (clk_bus : Clocks) (clock : BitVec 32) : Prop :=
  (CanReach clk_bus clock ∧
    ((clk_bus 0).isSome ∨ clock ≠ UINT_MAX ∨ ∃ j r, clk_bus j = some r ∧ r ≠ 0)) ∨
  ¬CanReach clk_bus clock ∧
    (∀ i j r r', clk_bus i = some r → clk_bus j = some r' → r.toNat / 256 = r'.toNat / 256) ∧
    ((clk_bus 0).isSome ∨ ∃ j r, clk_bus j = some r ∧ r.toNat / 256 ≠ clock.toNat + 1)

abbrev delta (clk_bus : Clocks) (clock : BitVec 32) (i : Fin MAX_BUS_CLK) : Nat :=
  (sdhci_s3c_consider_clock clk_bus clock i).toNat

section Difference

variable {rate wanted clock : BitVec 32} {clk_bus : Clocks} {i : Fin MAX_BUS_CLK} {k n v : Nat}

theorem toNat_two_pow (hk : k ≤ 8) : (BitVec.ofNat 32 (2 ^ k)).toNat = 2 ^ k := by
  rw [BitVec.toNat_ofNat, Nat.mod_eq_of_lt]
  exact Nat.pow_lt_pow_right (by omega) (by omega)

theorem toNat_div_two_pow (rate : BitVec 32) (hk : k ≤ 8) :
    (rate / BitVec.ofNat 32 (2 ^ k)).toNat = rate.toNat / 2 ^ k := by
  rw [BitVec.toNat_udiv, toNat_two_pow hk]

/-- The loop stops at the first divider that brings the rate down to the wanted one, or at 256. -/
theorem div_loop_spec (rate wanted : BitVec 32) (hkn : k + n = 8) :
    ∃ m, k ≤ m ∧ m ≤ 8 ∧ div_loop rate wanted n (BitVec.ofNat 32 (2 ^ k)) = BitVec.ofNat 32 (2 ^ m) ∧
      (m < 8 → rate.toNat / 2 ^ m ≤ wanted.toNat) ∧
      ∀ l, k ≤ l → l < m → wanted.toNat < rate.toNat / 2 ^ l := by
  induction n generalizing k with
  | zero => exact ⟨k, le_refl k, by omega, rfl, by omega, by omega⟩
  | succ n ih =>
    have hdiv := toNat_div_two_pow rate (show k ≤ 8 by omega)
    rw [div_loop]
    by_cases hle : rate / BitVec.ofNat 32 (2 ^ k) ≤ wanted
    · rw [if_pos hle]
      rw [BitVec.le_def, hdiv] at hle
      exact ⟨k, le_refl k, by omega, rfl, fun _ ↦ hle, by omega⟩
    · rw [if_neg hle]
      rw [BitVec.le_def, hdiv] at hle
      have hnext : BitVec.ofNat 32 (2 ^ k) * 2 = BitVec.ofNat 32 (2 ^ (k + 1)) := by
        rw [Nat.pow_succ, BitVec.ofNat_mul]
        rfl
      obtain ⟨m, hkm, hm, heq, hstop, hfast⟩ := ih (show k + 1 + n = 8 by omega)
      refine ⟨m, by omega, hm, hnext ▸ heq, hstop, fun l hl hlm ↦ ?_⟩
      rcases Nat.eq_or_lt_of_le hl with rfl | hl
      · omega
      · exact hfast l hl hlm

-- The whole loop.
theorem div_loop_eq (rate wanted : BitVec 32) :
    ∃ m ≤ 8, div_loop rate wanted 8 1 = BitVec.ofNat 32 (2 ^ m) ∧
      (m < 8 → rate.toNat / 2 ^ m ≤ wanted.toNat) ∧
      ∀ l < m, wanted.toNat < rate.toNat / 2 ^ l := by
  obtain ⟨m, _, hm, heq, hstop, hfast⟩ := div_loop_spec rate wanted (show 0 + 8 = 8 from rfl)
  exact ⟨m, hm, heq, hstop, fun l ↦ hfast l (Nat.zero_le l)⟩

theorem consider_clock_present (hrate : clk_bus i = some rate) :
    sdhci_s3c_consider_clock clk_bus wanted i = wanted - rate / div_loop rate wanted 8 1 := by
  unfold sdhci_s3c_consider_clock
  rw [hrate]

theorem consider_clock_absent (h : clk_bus i = none) :
    sdhci_s3c_consider_clock clk_bus wanted i = UINT_MAX := by
  unfold sdhci_s3c_consider_clock
  rw [h]

theorem div_two_pow_le {l : Nat} (hkl : k ≤ l) : n / 2 ^ l ≤ n / 2 ^ k :=
  Nat.div_le_div_left (Nat.pow_le_pow_right (by omega) hkl) (Nat.two_pow_pos k)

/-- A source that can be divided down far enough differs by what is missing to the wanted rate from its
largest rate that is not above it. -/
theorem consider_clock_slow (hrate : clk_bus i = some rate) (h : rate.toNat / 256 ≤ wanted.toNat) :
    ∃ v, Reaches wanted rate v ∧ (∀ u, Reaches wanted rate u → u ≤ v) ∧
      delta clk_bus wanted i = wanted.toNat - v := by
  obtain ⟨m, hm, heq, hstop, hfast⟩ := div_loop_eq rate wanted
  have hle : rate.toNat / 2 ^ m ≤ wanted.toNat := by
    rcases Nat.lt_or_eq_of_le hm with hlt | rfl
    · exact hstop hlt
    · exact h
  have hdiv := toNat_div_two_pow rate hm
  refine ⟨rate.toNat / 2 ^ m, ⟨⟨m, hm, rfl⟩, hle⟩, ?_, ?_⟩
  · rintro u ⟨⟨k, _, rfl⟩, hu⟩
    apply div_two_pow_le
    by_contra hkm
    have hk := hfast k (by omega)
    omega
  · rw [delta, consider_clock_present hrate, heq, BitVec.toNat_sub_of_le, hdiv]
    rw [BitVec.le_def, hdiv]
    exact hle

/-- One that cannot wraps around. -/
theorem consider_clock_fast (hrate : clk_bus i = some rate) (h : wanted.toNat < rate.toNat / 256) :
    delta clk_bus wanted i = 2 ^ 32 - (rate.toNat / 256 - wanted.toNat) := by
  obtain ⟨m, hm, heq, hstop, _⟩ := div_loop_eq rate wanted
  have hm8 : m = 8 := by
    by_contra hne
    have hle := hstop (by omega)
    have hmono : rate.toNat / 2 ^ 8 ≤ rate.toNat / 2 ^ m := div_two_pow_le hm
    omega
  have hdiv := toNat_div_two_pow rate hm
  rw [hm8] at heq hdiv
  have hlt := rate.isLt
  rw [delta, consider_clock_present hrate, heq, BitVec.toNat_sub, hdiv]
  omega

theorem Reaches.slow (h : Reaches clock rate v) :
    rate.toNat / 256 ≤ clock.toNat := by
  obtain ⟨⟨k, hk, rfl⟩, hle⟩ := h
  have hmono : rate.toNat / 2 ^ 8 ≤ rate.toNat / 2 ^ k := div_two_pow_le hk
  exact Nat.le_trans hmono hle

theorem canReach_iff :
    CanReach clk_bus clock ↔ ∃ i rate, clk_bus i = some rate ∧ rate.toNat / 256 ≤ clock.toNat := by
  constructor
  · rintro ⟨i, rate, v, hrate, hv⟩
    exact ⟨i, rate, hrate, hv.slow⟩
  · rintro ⟨i, rate, hrate, hle⟩
    exact ⟨i, rate, rate.toNat / 2 ^ 8, hrate, ⟨8, le_refl 8, rfl⟩, hle⟩

theorem not_canReach_iff : ¬CanReach clk_bus clock ↔
    ∀ i rate, clk_bus i = some rate → clock.toNat < rate.toNat / 256 := by
  rw [canReach_iff]
  simp only [not_exists, not_and, Nat.not_le]

end Difference

section Selection

variable {clk_bus : Clocks} {clock : BitVec 32} {i : Fin MAX_BUS_CLK}

theorem best_clock_eq : best_clock clk_bus clock =
    best (sdhci_s3c_consider_clock clk_bus clock) (UINT_MAX, 0) (List.finRange MAX_BUS_CLK) := rfl

theorem lt_UINT_MAX_iff {x : BitVec 32} : x < UINT_MAX ↔ x.toNat ≠ 2 ^ 32 - 1 := by
  have hlt := x.isLt
  rw [BitVec.lt_def]
  show x.toNat < 2 ^ 32 - 1 ↔ _
  omega

/-- The source that is taken has the least difference, unless all of them are `UINT_MAX`: then it is
source 0. -/
theorem best_clock_cases (clk_bus : Clocks) (clock : BitVec 32) :
    (delta clk_bus clock (best_clock clk_bus clock).2 ≠ 2 ^ 32 - 1 ∧
      ∀ j, delta clk_bus clock (best_clock clk_bus clock).2 ≤ delta clk_bus clock j) ∨
    (best_clock clk_bus clock).2 = 0 ∧ ∀ j, delta clk_bus clock j = 2 ^ 32 - 1 := by
  rw [best_clock_eq]
  by_cases h : ∃ j ∈ List.finRange MAX_BUS_CLK, sdhci_s3c_consider_clock clk_bus clock j < UINT_MAX
  · obtain ⟨hlt, hall⟩ := best_of_lt (fun x y ↦ BitVec.lt_def) h (b := (UINT_MAX, 0))
    exact Or.inl ⟨lt_UINT_MAX_iff.mp hlt, fun j ↦ hall j (List.mem_finRange j)⟩
  · have hnot : ∀ j ∈ List.finRange MAX_BUS_CLK,
        ¬sdhci_s3c_consider_clock clk_bus clock j < UINT_MAX := fun j hj hlt ↦ h ⟨j, hj, hlt⟩
    refine Or.inr ⟨?_, fun j ↦ ?_⟩
    · rw [best_of_not_lt (fun x y ↦ BitVec.lt_def) hnot]
    · exact not_not.mp (mt lt_UINT_MAX_iff.mpr (hnot j (List.mem_finRange j)))

theorem present_of_delta_ne (h : delta clk_bus clock i ≠ 2 ^ 32 - 1) :
    ∃ rate, clk_bus i = some rate := by
  cases hrate : clk_bus i with
  | some rate => exact ⟨rate, rfl⟩
  | none => exact absurd (congrArg BitVec.toNat (consider_clock_absent hrate)) h

-- A source that wraps around is never taken when there is one that does not.
theorem slow_of_least {rate : BitVec 32} (hrate : clk_bus i = some rate)
    (hle : ∀ j, delta clk_bus clock i ≤ delta clk_bus clock j) (hreach : CanReach clk_bus clock) :
    rate.toNat / 256 ≤ clock.toNat := by
  obtain ⟨j, r, hr, hslow⟩ := canReach_iff.mp hreach
  obtain ⟨v, _, _, hv⟩ := consider_clock_slow hr hslow
  by_contra hfast
  have hfar := consider_clock_fast hrate (show clock.toNat < rate.toNat / 256 by omega)
  have hij := hle j
  have hlt := rate.isLt
  omega

theorem closest_of_canReach {rate : BitVec 32} (hrate : clk_bus i = some rate)
    (hle : ∀ j, delta clk_bus clock i ≤ delta clk_bus clock j) (hreach : CanReach clk_bus clock) :
    Closest clk_bus clock i := by
  obtain ⟨v, hv, _, hdelta⟩ := consider_clock_slow hrate (slow_of_least hrate hle hreach)
  refine ⟨rate, hrate, fun _ ↦ ⟨v, hv, fun j r u hr hu ↦ ?_⟩, absurd hreach⟩
  obtain ⟨w, hw, hgreatest, hdelta'⟩ := consider_clock_slow hr hu.slow
  have hij := hle j
  have huw := hgreatest u hu
  have hvc := hv.2
  have hwc := hw.2
  omega

-- Of the sources that wrap around, the one that is taken is as fast as any.
theorem fastest_of_least {j : Fin MAX_BUS_CLK} {rate r : BitVec 32} (hrate : clk_bus i = some rate)
    (hr : clk_bus j = some r) (hle : delta clk_bus clock i ≤ delta clk_bus clock j)
    (hreach : ¬CanReach clk_bus clock) : r.toNat / 256 ≤ rate.toNat / 256 := by
  have hfast := not_canReach_iff.mp hreach i rate hrate
  have hfast' := not_canReach_iff.mp hreach j r hr
  have hi := consider_clock_fast hrate hfast
  have hj := consider_clock_fast hr hfast'
  have hlt := r.isLt
  omega

theorem eq_zero_of_reaches (hclock : clock = UINT_MAX) {r : BitVec 32}
    (hall : ∀ u, Reaches clock r u → u ≤ 0) : r = 0 := by
  have hr : Reaches clock r (r.toNat / 2 ^ 0) := by
    refine ⟨⟨0, by omega, rfl⟩, ?_⟩
    have hlt := r.isLt
    rw [hclock, Nat.pow_zero, Nat.div_one]
    show _ ≤ 2 ^ 32 - 1
    omega
  have h0 := hall _ hr
  rw [Nat.pow_zero, Nat.div_one] at h0
  exact BitVec.eq_of_toNat_eq (Nat.le_zero.mp h0)

-- When all the differences are `UINT_MAX` and something can be reached, all rates are 0.
theorem rates_zero (hall : ∀ j, delta clk_bus clock j = 2 ^ 32 - 1) (hreach : CanReach clk_bus clock) :
    clock = UINT_MAX ∧ ∀ j r, clk_bus j = some r → r = 0 := by
  obtain ⟨j, r, hr, hslow⟩ := canReach_iff.mp hreach
  obtain ⟨v, _, _, hv⟩ := consider_clock_slow hr hslow
  have hj := hall j
  have hlt := clock.isLt
  have hclock : clock = UINT_MAX := BitVec.eq_of_toNat_eq (show clock.toNat = 2 ^ 32 - 1 by omega)
  refine ⟨hclock, fun k r' hr' ↦ eq_zero_of_reaches hclock ?_⟩
  have hslow' : r'.toNat / 256 ≤ clock.toNat := by
    have hlt' := r'.isLt
    omega
  obtain ⟨w, hw, hgreatest, hdelta⟩ := consider_clock_slow hr' hslow'
  have hk := hall k
  have hw0 : w = 0 := by
    have hwc := hw.2
    omega
  rwa [hw0] at hgreatest

-- When nothing can be reached and the sources are equally fast, any of them will do.
theorem closest_of_same {rate : BitVec 32} (hrate : clk_bus i = some rate)
    (hreach : ¬CanReach clk_bus clock)
    (hsame : ∀ j r, clk_bus j = some r → r.toNat / 256 = rate.toNat / 256) :
    Closest clk_bus clock i :=
  ⟨rate, hrate, fun h ↦ absurd h hreach, fun _ j r hr ↦ Nat.le_of_eq (hsame j r hr).symm⟩

theorem Closest.slowest {rate r : BitVec 32} {j : Fin MAX_BUS_CLK} (h : Closest clk_bus clock i)
    (hrate : clk_bus i = some rate) (hr : clk_bus j = some r) (hreach : ¬CanReach clk_bus clock) :
    rate.toNat / 256 ≤ r.toNat / 256 := by
  obtain ⟨rate', hrate', _, hslowest⟩ := h
  obtain rfl := Option.some.inj (hrate.symm.trans hrate')
  exact hslowest hreach j r hr

-- A source that is taken for its difference has a rate, if the wanted one is the highest of all.
theorem exists_rate_ne_zero {rate : BitVec 32} (hne : delta clk_bus clock i ≠ 2 ^ 32 - 1)
    (hrate : clk_bus i = some rate) (hslow : rate.toNat / 256 ≤ clock.toNat)
    (hclock : clock = UINT_MAX) : ∃ j r, clk_bus j = some r ∧ r ≠ 0 := by
  refine ⟨i, rate, hrate, fun hzero ↦ hne ?_⟩
  obtain ⟨v, ⟨⟨k, _, hv⟩, _⟩, _, hdelta⟩ := consider_clock_slow hrate hslow
  have hv0 : v = 0 := by
    rw [hv, hzero]
    exact Nat.zero_div _
  rw [hdelta, hv0, hclock]
  rfl

theorem closest_iff_of_least (hne : delta clk_bus clock i ≠ 2 ^ 32 - 1)
    (hle : ∀ j, delta clk_bus clock i ≤ delta clk_bus clock j) :
    Closest clk_bus clock i ↔ Separable clk_bus clock := by
  obtain ⟨rate, hrate⟩ := present_of_delta_ne hne
  by_cases hreach : CanReach clk_bus clock
  · refine iff_of_true (closest_of_canReach hrate hle hreach) (Or.inl ⟨hreach, ?_⟩)
    by_cases hclock : clock = UINT_MAX
    · have hslow := slow_of_least hrate hle hreach
      exact Or.inr (Or.inr (exists_rate_ne_zero hne hrate hslow hclock))
    · exact Or.inr (Or.inl hclock)
  · have hfast := consider_clock_fast hrate (not_canReach_iff.mp hreach i rate hrate)
    constructor
    · intro hclosest
      have heq : ∀ j r, clk_bus j = some r → r.toNat / 256 = rate.toNat / 256 := by
        intro j r hr
        have hle' := hclosest.slowest hrate hr hreach
        have hge := fastest_of_least hrate hr (hle j) hreach
        omega
      refine Or.inr ⟨hreach, fun j k r r' hr hr' ↦ ?_, Or.inr ⟨i, rate, hrate, fun h ↦ hne ?_⟩⟩
      · rw [heq j r hr, heq k r' hr']
      · rw [hfast, h]
        omega
    · rintro (⟨h, _⟩ | ⟨_, heq, _⟩)
      · exact absurd h hreach
      · exact closest_of_same hrate hreach fun j r hr ↦ heq j i r rate hr hrate

theorem closest_iff_of_none (hall : ∀ j, delta clk_bus clock j = 2 ^ 32 - 1) :
    Closest clk_bus clock 0 ↔ Separable clk_bus clock := by
  have hpresent (h : Closest clk_bus clock 0) : (clk_bus 0).isSome := by
    obtain ⟨rate, hrate, _⟩ := h
    exact Option.isSome_iff_exists.mpr ⟨rate, hrate⟩
  by_cases hreach : CanReach clk_bus clock
  · obtain ⟨hclock, hzero⟩ := rates_zero hall hreach
    constructor
    · exact fun h ↦ Or.inl ⟨hreach, Or.inl (hpresent h)⟩
    · rintro (⟨_, h0 | hmax | ⟨j, r, hr, hne⟩⟩ | ⟨h, _⟩)
      · obtain ⟨rate, hrate⟩ := Option.isSome_iff_exists.mp h0
        exact closest_of_canReach hrate (fun j ↦ Nat.le_of_eq ((hall 0).trans (hall j).symm)) hreach
      · exact absurd hclock hmax
      · exact absurd (hzero j r hr) hne
      · exact absurd hreach h
  · have hnext : ∀ j r, clk_bus j = some r → r.toNat / 256 = clock.toNat + 1 := by
      intro j r hr
      have hlt := not_canReach_iff.mp hreach j r hr
      have hfast := consider_clock_fast hr hlt
      have hj := hall j
      have hr32 := r.isLt
      omega
    constructor
    · refine fun h ↦ Or.inr ⟨hreach, fun j k r r' hr hr' ↦ ?_, Or.inl (hpresent h)⟩
      rw [hnext j r hr, hnext k r' hr']
    · rintro (⟨h, _⟩ | ⟨_, _, h0 | ⟨j, r, hr, hne⟩⟩)
      · exact absurd h hreach
      · obtain ⟨rate, hrate⟩ := Option.isSome_iff_exists.mp h0
        refine closest_of_same hrate hreach fun j r hr ↦ ?_
        rw [hnext j r hr, hnext 0 rate hrate]
      · exact absurd (hnext j r hr) hne

theorem closest_best_clock_iff :
    Closest clk_bus clock (best_clock clk_bus clock).2 ↔ Separable clk_bus clock := by
  rcases best_clock_cases clk_bus clock with ⟨hne, hle⟩ | ⟨h0, hall⟩
  · exact closest_iff_of_least hne hle
  · rw [h0]
    exact closest_iff_of_none hall

end Selection

section SetClock

variable {p : Platform} {h : Host} {clock : BitVec 32} {i j : Fin MAX_BUS_CLK}

theorem src_index_inj : src_index i = src_index j ↔ i = j := by
  constructor
  · intro heq
    have hnat := congrArg BitVec.toNat heq
    rw [src_index, src_index, BitVec.toNat_ofNat, BitVec.toNat_ofNat] at hnat
    have hi : i.val < 4 := i.isLt
    have hj : j.val < 4 := j.isLt
    apply Fin.ext
    omega
  · exact congrArg src_index

theorem check_sclk_cur_clk : (sdhci_s3c_check_sclk p h).cur_clk = h.cur_clk := by
  unfold sdhci_s3c_check_sclk
  split
  · rfl
  · rfl

theorem change_source_cur_clk : (change_source p i h).cur_clk = src_index i := by
  show (sdhci_s3c_check_sclk p _).cur_clk = _
  rw [check_sclk_cur_clk]

theorem set_clock_cur_clk (hclock : clock ≠ 0) :
    (sdhci_s3c_set_clock p clock h).cur_clk = src_index (best_clock h.clk_bus clock).2 := by
  unfold sdhci_s3c_set_clock
  rw [if_neg hclock]
  have hcur : (if h.cur_clk ≠ src_index (best_clock h.clk_bus clock).2 then
      change_source p (best_clock h.clk_bus clock).2 h else h).cur_clk =
        src_index (best_clock h.clk_bus clock).2 := by
    by_cases hsame : h.cur_clk = src_index (best_clock h.clk_bus clock).2
    · rw [if_neg (not_not.mpr hsame), hsame]
    · rw [if_pos hsame, change_source_cur_clk]
  dsimp only
  generalize (if h.cur_clk ≠ src_index (best_clock h.clk_bus clock).2 then
    change_source p (best_clock h.clk_bus clock).2 h else h) = t at hcur ⊢
  split
  · exact hcur
  · exact hcur

end SetClock

/-- A request for a rate. -/
structure Request where
  platform : Platform
  host : Host
  clock : BitVec 32

/-- After the request the closest source is selected. -/
def Request.Met (r : Request) : Prop :=
  ∃ i, (sdhci_s3c_set_clock r.platform r.clock r.host).cur_clk = src_index i ∧
    Closest r.host.clk_bus r.clock i

/-- `sdhci_s3c_set_clock` selects the closest source exactly when some source can be divided down far
enough or all are equally fast, and source 0 is there if nothing tells the sources apart. -/
theorem set_clock_closest_iff (r : Request) (hclock : r.clock ≠ 0) :
    r.Met ↔ Separable r.host.clk_bus r.clock := by
  rw [← closest_best_clock_iff]
  unfold Request.Met
  rw [set_clock_cur_clk hclock]
  constructor
  · rintro ⟨i, hi, hclosest⟩
    rwa [src_index_inj.mp hi]
  · exact fun hclosest ↦ ⟨_, rfl, hclosest⟩

-- The driver before the first request, with the sources that are present.
def initial_host (clk_bus : Clocks) : Host where
  clk_bus := clk_bus
  cur_clk := 0
  max_clk := 0
  timeout_clk := 0
  clock_control := 0
  control2 := 0
  cfg_card := false
  configured := []

def s3c_platform : Platform := ⟨0x30, 4, 0⟩

/-- 48 MHz can be divided down to 375 kHz, so that the closest source for 400 kHz is selected. -/
theorem set_clock_closest_400kHz :
    (Request.mk s3c_platform (initial_host ![some 48000000, some 133000000, none, none])
      400000).Met :=
  (set_clock_closest_iff
    ⟨s3c_platform, initial_host ![some 48000000, some 133000000, none, none], 400000⟩
    (by decide)).mpr
    (Or.inl ⟨⟨0, 48000000, 375000, rfl, ⟨7, by omega, by decide⟩, by decide⟩, Or.inl rfl⟩)

/-- For 100 kHz, which neither can be divided down to, the faster one is taken. -/
theorem set_clock_takes_faster :
    ¬∀ r : Request, (∃ i, (r.host.clk_bus i).isSome) → r.clock ≠ 0 → r.Met := by
  let clk_bus : Clocks := ![some 48000000, some 133000000, none, none]
  intro hall
  obtain ⟨i, hi, hclosest⟩ := hall ⟨s3c_platform, initial_host clk_bus, 100000⟩ ⟨0, rfl⟩ (by decide)
  have hsel : (sdhci_s3c_set_clock s3c_platform 100000 (initial_host clk_bus)).cur_clk =
      src_index 1 := by
    decide +kernel
  obtain rfl : 1 = i := src_index_inj.mp (hsel.symm.trans hi)
  have hreach : ¬CanReach clk_bus 100000 := by
    rw [not_canReach_iff]
    intro j rate hrate
    fin_cases j
    · obtain rfl : (48000000 : BitVec 32) = rate := Option.some.inj hrate
      decide
    · obtain rfl : (133000000 : BitVec 32) = rate := Option.some.inj hrate
      decide
    · cases hrate
    · cases hrate
  obtain ⟨rate, hrate, _, hslowest⟩ := hclosest
  obtain rfl : (133000000 : BitVec 32) = rate := Option.some.inj hrate
  exact absurd (hslowest hreach 0 48000000 rfl) (by decide)

end OK210Drivers.Mmc
