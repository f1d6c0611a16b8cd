import OK210Drivers.Touch.Averages

/-!
# A touch comes to its end

The writes of the driver to the touch screen controller: they start conversions, each of which ends in an
`IRQ_ADC`.  A touch that has been reported keeps the timer or a conversion going until its end has been
reported, too.
-/

open Library

namespace OK210Drivers.Touch

/-- What the driver writes: `ADCTSC` for the next pen interrupt or for conversions, and the start bit of
`ADCCON`. -/
inductive Write
  | wait4int (x : Nat)
  | autopst
  | enableStart
  deriving DecidableEq

def touch_timer_fire_writes (cfg : Config) (data0 data1 : BitVec 32) (s : State) : List Write :=
  if cfg.s5p_adc = true ∧ s.adc_lock_id ≠ LOCK_TS then []
  else if updown data0 data1 then [.autopst, .enableStart]
  else [.wait4int 0]

def stylus_updown_writes (cfg : Config) (data0 data1 data0' data1' : BitVec 32) (s : State) : List Write :=
  let pen (s : State) : List Write :=
    if updown data0 data1 then touch_timer_fire_writes cfg data0' data1' s else []
  if cfg.s5p_adc = true ∧ s.adc_lock_id ≠ LOCK_TS then
    match s3c_ts_adc_lock LOCK_TS s with
    | (ret, s') => if ret ≠ 0 then [] else pen s'
  else pen s

def stylus_action_writes (cfg : Config) (s : State) : List Write :=
  if cfg.s5p_adc = true ∧ s.adc_lock_id ≠ LOCK_TS then []
  else if (s.count + 1).slt (1 <<< cfg.shift) then [.autopst, .enableStart]
  else [.wait4int 1]

def Event.writes (cfg : Config) (s : State) : Event → List Write
  | .updown data0 data1 data0' data1' => stylus_updown_writes cfg data0 data1 data0' data1' s
  | .action _ _ => stylus_action_writes cfg s
  | .timer data0 data1 => touch_timer_fire_writes cfg data0 data1 s
  | _ => []

def Event.isAction : Event → Bool
  | .action .. => true
  | _ => false

/-- The driver and its controller: whether a conversion has been started and has not come to its
interrupt. -/
structure Screen where
  sys : System
  converting : Bool

def Screen.init : Screen := ⟨System.init, false⟩

/-- `IRQ_ADC` comes of a conversion that has been started. -/
inductive ScreenStep (cfg : Config) : Screen → Event → Screen → Prop
  | mk {w : Screen} {e : Event} {t : System} (hs : Step cfg w.sys e t)
      (hadc : e.isAction = true → w.converting = true) : ScreenStep cfg w e
      { sys := t
        converting := (w.converting && !e.isAction) ||
          (e.writes cfg w.sys.driver).contains .enableStart }

def Report.touch? : Report → Option (BitVec 32)
  | .btnTouch v => some v
  | _ => none

/-- The last `BTN_TOUCH` that has been reported. -/
def State.touch (s : State) : Option (BitVec 32) := lastSome Report.touch? s.reports

def Screen.touch (w : Screen) : Option (BitVec 32) := w.sys.driver.touch

/-- The data registers that an event's handler reads first say that the pen is up. -/
def Event.PenUp : Event → Prop
  | .updown data0 data1 _ _ => Touch.updown data0 data1 = false
  | .timer data0 data1 => Touch.updown data0 data1 = false
  | _ => True

/-- An event that a conversion or the timer has come to. -/
def Event.isDue : Event → Bool
  | .action .. => true
  | .timer .. => true
  | _ => false

section Effects

variable {cfg : Config} {s : State} {data0 data1 data0' data1' : BitVec 32}

theorem touch_report (rs : List Report) :
    (s.report rs).touch = (lastSome Report.touch? rs).or s.touch := by
  unfold State.touch State.report
  induction rs using List.reverseRecOn with
  | nil => simp [lastSome]
  | append_singleton rs r ih =>
    simp only at ih ⊢
    rw [← List.append_assoc, lastSome_snoc, lastSome_snoc, ih, Option.or_assoc]

theorem report_position_effect : (report_position cfg s).count = s.count ∧
    (report_position cfg s).touch_timer = s.touch_timer ∧
    ((report_position cfg s).touch = s.touch ∨ (report_position cfg s).touch = some 1) := by
  unfold report_position
  split
  · dsimp only
    split
    · exact ⟨rfl, rfl, Or.inr (touch_report _)⟩
    · exact ⟨rfl, rfl, Or.inl rfl⟩
  · split
    · exact ⟨rfl, rfl, Or.inr (touch_report _)⟩
    · exact ⟨rfl, rfl, Or.inl rfl⟩

theorem report_up_effect : (report_up cfg s).count = s.count ∧ (report_up cfg s).touch = some 0 := by
  unfold report_up
  split
  · exact ⟨rfl, touch_report _⟩
  · exact ⟨rfl, touch_report _⟩

/-- With the pen down the next group of samples is begun. -/
theorem touch_timer_fire_down (hu : cfg.mayUse s = true) (hpen : updown data0 data1 = true) :
    (touch_timer_fire cfg data0 data1 s).count = 0 ∧
      (touch_timer_fire cfg data0 data1 s).touch_timer = s.touch_timer ∧
      cfg.mayUse (touch_timer_fire cfg data0 data1 s) = true ∧
      touch_timer_fire_writes cfg data0 data1 s = [.autopst, .enableStart] := by
  have hno := mayUse_iff.mp hu
  have hlock : (touch_timer_fire cfg data0 data1 s).adc_lock_id = s.adc_lock_id := by
    unfold touch_timer_fire
    rw [if_neg hno, if_pos hpen]
    dsimp only
    split
    · exact report_position_lock.2
    · rfl
  refine ⟨?_, ?_, ?_, ?_⟩
  · unfold touch_timer_fire
    rw [if_neg hno, if_pos hpen]
  · unfold touch_timer_fire
    rw [if_neg hno, if_pos hpen]
    dsimp only
    split
    · exact report_position_effect.2.1
    · rfl
  · rw [mayUse_iff, hlock]
    exact hno
  · unfold touch_timer_fire_writes
    rw [if_neg hno, if_pos hpen]

/-- With the pen up the touch is reported to be over. -/
theorem touch_timer_fire_up (hu : cfg.mayUse s = true) (hpen : updown data0 data1 = false) :
    (touch_timer_fire cfg data0 data1 s).count = 0 ∧ (touch_timer_fire cfg data0 data1 s).touch = some 0 ∧
      (touch_timer_fire_writes cfg data0 data1 s).contains .enableStart = false := by
  have hno := mayUse_iff.mp hu
  have hpen' : ¬updown data0 data1 = true := by
    rw [hpen]
    decide
  obtain ⟨hc, ht⟩ := @report_up_effect cfg { s with count := 0 }
  unfold touch_timer_fire touch_timer_fire_writes
  rw [if_neg hno, if_neg hno, if_neg hpen', if_neg hpen']
  dsimp only at hc ht ⊢
  refine ⟨?_, ?_, rfl⟩
  · split
    · exact hc
    · exact hc
  · split
    · exact ht
    · exact ht

theorem touch_timer_fire_idle (hu : ¬cfg.mayUse s = true) : touch_timer_fire cfg data0 data1 s = s ∧
    touch_timer_fire_writes cfg data0 data1 s = [] := by
  have hyes := not_not.mp (mt mayUse_iff.mpr hu)
  unfold touch_timer_fire touch_timer_fire_writes
  rw [if_pos hyes, if_pos hyes]
  exact ⟨rfl, rfl⟩

/-- A sample is added up; the last one of a group sets the timer. -/
theorem stylus_action_sample (hu : cfg.mayUse s = true) :
    (stylus_action cfg data0 data1 s).count = s.count + 1 ∧
      (stylus_action cfg data0 data1 s).touch = s.touch ∧
      cfg.mayUse (stylus_action cfg data0 data1 s) = true ∧
      (if (s.count + 1).slt (1 <<< cfg.shift) = true then
        (stylus_action cfg data0 data1 s).touch_timer = s.touch_timer ∧
          stylus_action_writes cfg s = [.autopst, .enableStart]
      else (stylus_action cfg data0 data1 s).touch_timer = true ∧ stylus_action_writes cfg s = [.wait4int 1]) := by
  have hno := mayUse_iff.mp hu
  have hlock : cfg.mayUse (stylus_action cfg data0 data1 s) = true := by
    rw [mayUse_iff, stylus_action_lock.2]
    exact hno
  refine ⟨?_, ?_, hlock, ?_⟩
  · unfold stylus_action
    rw [if_neg hno]
    dsimp only
    split <;> split <;> rfl
  · unfold stylus_action
    rw [if_neg hno]
    dsimp only
    split <;> split <;> rfl
  · unfold stylus_action stylus_action_writes
    rw [if_neg hno, if_neg hno]
    by_cases hres : cfg.resol_bit = 12
    · simp only [if_pos hres]
      split <;> exact ⟨rfl, rfl⟩
    · simp only [if_neg hres]
      split <;> exact ⟨rfl, rfl⟩

theorem stylus_action_idle (hu : ¬cfg.mayUse s = true) : stylus_action cfg data0 data1 s = s ∧
    stylus_action_writes cfg s = [] := by
  have hyes := not_not.mp (mt mayUse_iff.mpr hu)
  unfold stylus_action stylus_action_writes
  rw [if_pos hyes, if_pos hyes]
  exact ⟨rfl, rfl⟩

/-- The pen interrupt takes the controller, unless it has it, and goes on. -/
theorem stylus_updown_pen {holds : Nat → Nat} (h : Owned s.ADC_LOCK s.adc_lock_id holds)
    (hne : s.adc_lock_id ≠ LOCK_ADC) :
    ∃ s', cfg.mayUse s' = true ∧ s'.count = s.count ∧ s'.touch_timer = s.touch_timer ∧
      s'.reports = s.reports ∧ Owned s'.ADC_LOCK s'.adc_lock_id holds ∧
      (stylus_updown cfg data0 data1 data0' data1' s =
        if updown data0 data1 then touch_timer_fire cfg data0' data1' s' else s') ∧
      stylus_updown_writes cfg data0 data1 data0' data1' s =
        if updown data0 data1 then touch_timer_fire_writes cfg data0' data1' s' else [] := by
  by_cases hu : cfg.mayUse s = true
  · refine ⟨s, hu, rfl, rfl, rfl, h, ?_, ?_⟩
    · unfold stylus_updown
      dsimp only
      rw [if_neg (mayUse_iff.mp hu)]
    · unfold stylus_updown_writes
      dsimp only
      rw [if_neg (mayUse_iff.mp hu)]
  · have hyes := not_not.mp (mt mayUse_iff.mpr hu)
    obtain ⟨hfree, rfl⟩ : 0 < s.ADC_LOCK ∧ holds = fun _ ↦ 0 := by
      generalize hn : s.ADC_LOCK = n, hid : s.adc_lock_id = id at h
      cases h with
      | free => exact ⟨Nat.one_pos, rfl⟩
      | ts => exact absurd hid hyes.2
      | adc c => exact absurd hid hne
    have htaken : Owned (s.ADC_LOCK - 1) LOCK_TS fun _ ↦ 0 := by
      rw [(h.of_pos hfree).1]
      exact .ts
    refine ⟨{ s with ADC_LOCK := s.ADC_LOCK - 1, adc_lock_id := LOCK_TS }, ?_, rfl, rfl, rfl, htaken, ?_, ?_⟩
    · exact mayUse_iff.mpr fun hno ↦ hno.2 rfl
    · unfold stylus_updown
      dsimp only
      rw [if_pos hyes, s3c_ts_adc_lock_free hfree]
      rfl
    · unfold stylus_updown_writes
      dsimp only
      rw [if_pos hyes, s3c_ts_adc_lock_free hfree]
      rfl

end Effects

/-! ## A touch that has been reported -/

/-- The controller has one owner, a group that is being sampled is not full, and as long as a touch is
reported the touch screen has the controller and its timer or a conversion will come. -/
structure Live (cfg : Config) (w : Screen) : Prop where
  owned : Owned w.sys.driver.ADC_LOCK w.sys.driver.adc_lock_id w.sys.holds
  group : w.converting = true → w.sys.driver.count.toNat < 2 ^ cfg.shift
  held : w.touch = some 1 → cfg.mayUse w.sys.driver = true
  pressed : w.touch = some 1 → w.converting = true ∨ w.sys.driver.touch_timer = true

section Live

variable {cfg : Config} {es : List Event} {e : Event} {w w' : Screen}

theorem shift_pos (n : Nat) : 0 < 2 ^ n := Nat.two_pow_pos n

/-- The comparison of `stylus_action`, for a group that is not full. -/
theorem count_slt (hshift : cfg.shift ≤ 30) {count : BitVec 32} (hc : count.toNat < 2 ^ cfg.shift) :
    ((count + 1).slt (1 <<< cfg.shift) = true ↔ (count + 1).toNat < 2 ^ cfg.shift) ∧
      (count + 1).toNat = count.toNat + 1 := by
  have hpow : 2 ^ cfg.shift ≤ 2 ^ 30 := Nat.pow_le_pow_right (by decide) hshift
  have hone : (1 <<< cfg.shift : BitVec 32).toNat = 2 ^ cfg.shift := by
    rw [BitVec.natCast_eq_ofNat, BitVec.toNat_ofNat, Nat.one_shiftLeft, Nat.mod_eq_of_lt (by omega)]
  have hadd : (count + 1).toNat = count.toNat + 1 := by
    rw [BitVec.toNat_add]
    exact Nat.mod_eq_of_lt (by show count.toNat + 1 < 2 ^ 32; omega)
  refine ⟨?_, hadd⟩
  rw [BitVec.slt_eq_decide, decide_eq_true_iff, BitVec.toInt_eq_toNat_of_lt (by omega),
    BitVec.toInt_eq_toNat_of_lt (by omega), hone]
  exact Int.ofNat_lt

theorem live_init : Live cfg Screen.init where
  owned := .free
  group := nofun
  held := nofun
  pressed := nofun

/-- A run of `touch_timer_fire` with the controller. -/
theorem live_fire {d : State} {holds : Nat → Nat} {busy : Bool} {data0 data1 : BitVec 32}
    (howned : Owned d.ADC_LOCK d.adc_lock_id holds) (hu : cfg.mayUse d = true) :
    Live cfg ⟨⟨touch_timer_fire cfg data0 data1 d, holds⟩,
      busy || (touch_timer_fire_writes cfg data0 data1 d).contains .enableStart⟩ := by
  have howned' := @touch_timer_fire_owned cfg d data0 data1 holds howned
  cases hpen : updown data0 data1 with
  | true =>
    obtain ⟨hc, -, hu', hw⟩ := touch_timer_fire_down hu hpen
    refine ⟨howned', fun _ ↦ ?_, fun _ ↦ hu', fun _ ↦ Or.inl ?_⟩
    · show (touch_timer_fire cfg data0 data1 d).count.toNat < _
      rw [hc]
      exact shift_pos _
    · show (busy || _) = true
      rw [hw, Bool.or_eq_true]
      exact Or.inr rfl
  | false =>
    obtain ⟨hc, ht, -⟩ := touch_timer_fire_up hu hpen
    have hno : ∀ {P : Prop}, (touch_timer_fire cfg data0 data1 d).touch = some 1 → P := by
      intro P h
      rw [ht] at h
      cases h
    refine ⟨howned', fun _ ↦ ?_, hno, hno⟩
    show (touch_timer_fire cfg data0 data1 d).count.toNat < _
    rw [hc]
    exact shift_pos _

/-- A step that leaves the samples, the reports and the controller alone. -/
theorem Live.mono (h : Live cfg w) (howned : Owned w'.sys.driver.ADC_LOCK w'.sys.driver.adc_lock_id w'.sys.holds)
    (hconv : w'.converting = w.converting) (hcount : w'.sys.driver.count = w.sys.driver.count)
    (htimer : w'.sys.driver.touch_timer = w.sys.driver.touch_timer) (htouch : w'.touch = w.touch)
    (hheld : w.touch = some 1 → cfg.mayUse w.sys.driver = true → cfg.mayUse w'.sys.driver = true) :
    Live cfg w' := by
  refine ⟨howned, ?_, ?_, ?_⟩
  · rw [hconv, hcount]
    exact h.group
  · rw [htouch]
    exact fun ht ↦ hheld ht (h.held ht)
  · rw [htouch, hconv, htimer]
    exact h.pressed

theorem live_step (hshift : cfg.shift ≤ 30) (h : Live cfg w) (hs : ScreenStep cfg w e w')
    (hg : PenWaits es w.sys e) : Live cfg w' := by
  cases hs with
  | @mk t hs hadc =>
    have howned := owned_step h.owned hs hg
    cases hs with
    | updown data0 data1 data0' data1' =>
      obtain ⟨d, hu, hc, htm, hr, hd, hrun, hwr⟩ := @stylus_updown_pen cfg w.sys.driver data0 data1 data0' data1'
        w.sys.holds h.owned (hg _ _ _ _ rfl)
      simp only [Event.isAction, Event.writes, hwr, hrun, Bool.not_false, Bool.and_true] at howned ⊢
      by_cases hpen : updown data0 data1 = true
      · simp only [if_pos hpen]
        exact live_fire hd hu
      · simp only [if_neg hpen] at howned ⊢
        refine h.mono howned (Bool.or_false _) hc htm ?_ fun _ _ ↦ hu
        show lastSome Report.touch? d.reports = _
        rw [hr]
        rfl
    | action data0 data1 =>
      have hconv : w.converting = true := hadc rfl
      simp only [Event.isAction, Event.writes, Bool.not_true, Bool.and_false, Bool.false_or] at howned ⊢
      by_cases hu : cfg.mayUse w.sys.driver = true
      · obtain ⟨hc, ht, hu', hnext⟩ := @stylus_action_sample cfg w.sys.driver data0 data1 hu
        obtain ⟨hslt, hadd⟩ := count_slt hshift (h.group hconv)
        split at hnext
        next hlt =>
          refine ⟨howned, fun _ ↦ ?_, fun _ ↦ hu', fun _ ↦ Or.inl ?_⟩
          · show (stylus_action cfg data0 data1 w.sys.driver).count.toNat < _
            rw [hc]
            exact hslt.mp hlt
          · show (stylus_action_writes cfg w.sys.driver).contains .enableStart = true
            rw [hnext.2]
            rfl
        next =>
          refine ⟨howned, fun hstart ↦ ?_, fun _ ↦ hu', fun _ ↦ Or.inr hnext.1⟩
          change (stylus_action_writes cfg w.sys.driver).contains .enableStart = true at hstart
          rw [hnext.2] at hstart
          cases hstart
      · obtain ⟨hsame, hnone⟩ := @stylus_action_idle cfg w.sys.driver data0 data1 hu
        have hno : ∀ {P : Prop}, w.touch = some 1 → P := fun ht ↦ absurd (h.held ht) hu
        simp only [hsame, hnone] at howned ⊢
        exact ⟨howned, nofun, hno, hno⟩
    | timer data0 data1 htimer =>
      simp only [Event.isAction, Event.writes, Bool.not_false, Bool.and_true]
      by_cases hu : cfg.mayUse w.sys.driver = true
      · exact @live_fire cfg { w.sys.driver with touch_timer := false } _ _ _ _ h.owned hu
      · obtain ⟨hsame, -⟩ := @touch_timer_fire_idle cfg { w.sys.driver with touch_timer := false } data0 data1 hu
        have hnone := (@touch_timer_fire_idle cfg w.sys.driver data0 data1 hu).2
        have hno : ∀ {P : Prop}, w.touch = some 1 → P := fun ht ↦ absurd (h.held ht) hu
        rw [hsame] at howned
        rw [hsame, hnone]
        refine ⟨howned, fun hb ↦ h.group ?_, hno, hno⟩
        simpa using hb
    | @acquire ret d c hcfg hacq =>
      rw [X6410_adc_acquire_io] at hacq
      by_cases hl : 0 < w.sys.driver.ADC_LOCK
      · rw [s3c_ts_adc_lock_free hl, Prod.mk.injEq] at hacq
        obtain ⟨-, rfl⟩ := hacq
        refine h.mono howned (by simp [Event.isAction, Event.writes]) rfl rfl rfl fun _ hu ↦ ?_
        have hts : w.sys.driver.adc_lock_id = LOCK_TS := by
          by_contra hne
          exact mayUse_iff.mp hu ⟨hcfg, hne⟩
        exact absurd hl (by rw [(h.owned.of_ts hts).1]; exact Nat.lt_irrefl 0)
      · rw [s3c_ts_adc_lock_taken (Nat.eq_zero_of_not_pos hl), Prod.mk.injEq] at hacq
        obtain ⟨-, rfl⟩ := hacq
        exact h.mono howned (by simp [Event.isAction, Event.writes]) rfl rfl rfl fun _ hu ↦ hu
    | @release c hcfg hc =>
      refine h.mono howned (by simp [Event.isAction, Event.writes]) rfl rfl rfl fun _ hu ↦ ?_
      have hid := (h.owned.of_holds hc).2.1
      refine absurd ⟨hcfg, ?_⟩ (mayUse_iff.mp hu)
      rw [hid]
      decide

/-- How many conversions are left of the group. -/
def Screen.left (cfg : Config) (w : Screen) : Nat :=
  if w.converting = true then 2 ^ cfg.shift - w.sys.driver.count.toNat else 0

/-- With the pen up, each event that comes due brings the end of a touch nearer. -/
theorem left_step (hshift : cfg.shift ≤ 30) (h : Live cfg w) (ht : w.touch = some 1)
    (hs : ScreenStep cfg w e w') (hup : e.PenUp) :
    w'.touch = some 0 ∨ Live cfg w' ∧ w'.touch = some 1 ∧
      w'.left cfg + (if e.isDue = true then 1 else 0) ≤ w.left cfg := by
  have hu := h.held ht
  have hno := mayUse_iff.mp hu
  cases hs with
  | @mk t hs hadc =>
    cases hs with
    | updown data0 data1 data0' data1' =>
      have hpen : ¬updown data0 data1 = true := by
        rw [show updown data0 data1 = false from hup]
        decide
      have hrun : stylus_updown cfg data0 data1 data0' data1' w.sys.driver = w.sys.driver := by
        unfold stylus_updown
        dsimp only
        rw [if_neg hno, if_neg hpen]
      have hwr : stylus_updown_writes cfg data0 data1 data0' data1' w.sys.driver = [] := by
        unfold stylus_updown_writes
        dsimp only
        rw [if_neg hno, if_neg hpen]
      have hsame : (w.converting && !(Event.updown data0 data1 data0' data1').isAction ||
          ((Event.updown data0 data1 data0' data1').writes cfg w.sys.driver).contains .enableStart) =
          w.converting := by
        simp [Event.isAction, Event.writes, hwr]
      rw [hrun, hsame]
      exact Or.inr ⟨h, ht, Nat.le_refl _⟩
    | action data0 data1 =>
      have hconv : w.converting = true := hadc rfl
      have hlive := @live_step cfg [] _ w _ hshift h (.mk (.action data0 data1) hadc) nofun
      obtain ⟨hc, htouch, -, hnext⟩ := @stylus_action_sample cfg w.sys.driver data0 data1 hu
      obtain ⟨-, hadd⟩ := count_slt hshift (h.group hconv)
      have hlt := h.group hconv
      refine Or.inr ⟨hlive, htouch.trans ht, ?_⟩
      unfold Screen.left
      rw [if_pos hconv]
      show (if _ = true then 2 ^ cfg.shift - (stylus_action cfg data0 data1 w.sys.driver).count.toNat else 0) + 1
        ≤ _
      rw [hc, hadd]
      split <;> omega
    | timer data0 data1 htimer =>
      refine Or.inl ?_
      exact (@touch_timer_fire_up cfg { w.sys.driver with touch_timer := false } data0 data1 hu hup).2.1
    | @acquire ret d c hcfg hacq =>
      have hlive := @live_step cfg [] _ w _ hshift h (.mk (.acquire c hcfg hacq) hadc) nofun
      have hts : w.sys.driver.adc_lock_id = LOCK_TS := by
        by_contra hne
        exact hno ⟨hcfg, hne⟩
      rw [X6410_adc_acquire_io, s3c_ts_adc_lock_taken (h.owned.of_ts hts).1, Prod.mk.injEq] at hacq
      obtain ⟨-, rfl⟩ := hacq
      refine Or.inr ⟨hlive, ht, ?_⟩
      unfold Screen.left
      simp [Event.isAction, Event.writes, Event.isDue]
    | @release c hcfg hc =>
      have hid := (h.owned.of_holds hc).2.1
      refine absurd ⟨hcfg, ?_⟩ hno
      rw [hid]
      decide

/-- A touch that has been reported keeps the timer or a conversion going, and once the pen is up its end is
reported before another `2 ^ shift + 1` of them have come due. -/
theorem touch_ends (hshift : cfg.shift ≤ 30)
    (h : GuardedRun (ScreenStep cfg) (fun es w e ↦ PenWaits es w.sys e) Screen.init es w)
    (ht : w.touch = some 1) :
    (w.converting = true ∨ w.sys.driver.touch_timer = true) ∧
      ∀ es' w', Run (fun w e w' ↦ ScreenStep cfg w e w' ∧ e.PenUp) w es' w' →
        2 ^ cfg.shift + 1 ≤ es'.countP Event.isDue →
        ∃ pre u post, es' = pre ++ post ∧ Run (ScreenStep cfg) w pre u ∧ u.touch = some 0 := by
  have hlive : Live cfg w := h.invariant (fun _ w ↦ Live cfg w) live_init
    fun es w e w' hi hs hg ↦ live_step hshift hi hs hg
  refine ⟨hlive.pressed ht, fun es' w' h' hlong ↦ ?_⟩
  have hleft : w.left cfg ≤ 2 ^ cfg.shift := by
    unfold Screen.left
    split
    · exact Nat.sub_le ..
    · exact Nat.zero_le _
  obtain ⟨pre, u, post, hpre, hrun, -, hu⟩ := Run.within
    (fun n w ↦ Live cfg w ∧ w.touch = some 1 ∧ w.left cfg ≤ n) (fun u ↦ u.touch = some 0) Event.isDue
    (fun n w e w' ⟨hi, ht, hn⟩ hs ↦ (left_step hshift hi ht hs.1 hs.2).imp_right
      fun ⟨hi', ht', hle⟩ ↦ ⟨_, ⟨hi', ht', Nat.le_refl _⟩, Nat.le_trans hle hn⟩)
    ⟨hlive, ht, Nat.le_refl _⟩ h' (Nat.lt_of_le_of_lt hleft hlong)
  exact ⟨pre, u, post, hpre, hrun.mono fun _ _ _ hs ↦ hs.1, hu⟩

/-- The pen comes down, four samples are taken and the timer finds it down: the next group of samples, or
the timer, ends the touch. -/
theorem touch_ends_first_touch :
    ∃ w, GuardedRun (ScreenStep ⟨true, false, 2, 12⟩) (fun es w e ↦ PenWaits es w.sys e) Screen.init
        [.updown 0 0 0 0, .action 7 9, .action 7 9, .action 7 9, .action 7 9, .timer 0 0] w ∧
      w.touch = some 1 ∧ (w.converting = true ∨ w.sys.driver.touch_timer = true) ∧
      ∀ es' w', Run (fun w e w' ↦ ScreenStep ⟨true, false, 2, 12⟩ w e w' ∧ e.PenUp) w es' w' →
        2 ^ 2 + 1 ≤ es'.countP Event.isDue →
        ∃ pre u post, es' = pre ++ post ∧ Run (ScreenStep ⟨true, false, 2, 12⟩) w pre u ∧ u.touch = some 0 := by
  have hwait : ∀ {es : List Event} {s : System} {e : Event},
      s.driver.adc_lock_id = LOCK_FREE ∨ s.driver.adc_lock_id = LOCK_TS → PenWaits es s e := by
    intro es s e h _ _ _ _ _ hid
    rw [hid] at h
    exact absurd h (by decide)
  have h₁ := (@RunWhere.nil _ _ (ScreenStep ⟨true, false, 2, 12⟩)
    (fun es w e _ ↦ PenWaits es w.sys e) Screen.init).snoc (.mk (.updown 0 0 0 0) nofun) (hwait (Or.inl rfl))
  have h₂ := h₁.snoc (.mk (.action 7 9) fun _ ↦ rfl) (hwait (Or.inr rfl))
  have h₃ := h₂.snoc (.mk (.action 7 9) fun _ ↦ rfl) (hwait (Or.inr rfl))
  have h₄ := h₃.snoc (.mk (.action 7 9) fun _ ↦ rfl) (hwait (Or.inr rfl))
  have h₅ := h₄.snoc (.mk (.action 7 9) fun _ ↦ rfl) (hwait (Or.inr rfl))
  have h₆ := h₅.snoc (.mk (.timer 0 0 rfl) nofun) (hwait (Or.inr rfl))
  obtain ⟨hnext, hend⟩ := touch_ends (by decide) h₆ rfl
  exact ⟨_, h₆, rfl, hnext, hend⟩

end Live

end OK210Drivers.Touch
