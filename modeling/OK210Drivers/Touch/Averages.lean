import OK210Drivers.Touch.AdcLock

/-!
# What the touch screen reports as a position

Without `CONFIG_ANDROID` the reported position is the sum in `xp` and `yp` as it stands when the timer
function finds the pen down: whatever the last group of samples left over, plus all samples since then.
A stroke ends where the timer function finds the pen up.
-/

open Library

namespace OK210Drivers.Touch

/-- The build without `CONFIG_ANDROID`. -/
def Config.plain (cfg : Config) : Config := { cfg with android := false }

def Config.mask (cfg : Config) : BitVec 32 := if cfg.resol_bit = 12 then 0x0fff else 0x03ff

/-- The two conversions that an `IRQ_ADC` adds up. -/
structure Sample where
  x : BitVec 32
  y : BitVec 32

/-- The touch screen may use the controller. -/
def Config.mayUse (cfg : Config) (s : State) : Bool := !(cfg.s5p_adc && s.adc_lock_id != LOCK_TS)

/-- The data registers that `touch_timer_fire` reads in a step, if it is run with the controller. -/
def fires (cfg : Config) (s : State) : Event → Option (BitVec 32 × BitVec 32)
  | .timer data0 data1 => if cfg.mayUse s then some (data0, data1) else none
  | .updown data0 data1 data0' data1' =>
    if (cfg.mayUse s || 0 < s.ADC_LOCK) && updown data0 data1 then some (data0', data1') else none
  | _ => none

/-- The sample that a step adds up. -/
def sampled (cfg : Config) (s : State) : Event → Option Sample
  | .action data0 data1 =>
    if cfg.mayUse s then some ⟨data0 &&& cfg.mask, data1 &&& cfg.mask⟩ else none
  | _ => none

/-- The driver with the samples since `touch_timer_fire` was last run, and what it left in `xp` and
`yp`. -/
structure Watched where
  sys : System
  group : List Sample
  left : Sample

def Watched.init : Watched := ⟨System.init, [], ⟨0, 0⟩⟩

/-- A step of the driver.  `touch_timer_fire` ends a group; with the pen up it ends a stroke. -/
inductive WatchedStep (cfg : Config) : Watched → Event → Watched → Prop
  | mk {w : Watched} {e : Event} {t : System} : Step cfg w.sys e t → WatchedStep cfg w e
      { sys := t
        group := if (fires cfg w.sys.driver e).isSome then []
          else w.group ++ (sampled cfg w.sys.driver e).toList
        left := if (fires cfg w.sys.driver e).isSome then ⟨t.driver.xp, t.driver.yp⟩ else w.left }

/-- The mean of `2^shift` values that are no larger than the mask. -/
structure IsMean (cfg : Config) (vs : List (BitVec 32)) (v : BitVec 32) : Prop where
  full : vs.length = 2 ^ cfg.shift
  mean : v.toNat = (vs.map BitVec.toNat).sum / 2 ^ cfg.shift
  bounded : v.toNat ≤ cfg.mask.toNat

/-- Every position reported in a step is the mean of one full group. -/
def Averaged (cfg : Config) (w t : Watched) : Prop :=
  ∀ new, t.sys.driver.reports = w.sys.driver.reports ++ new →
    (∀ v, .absX v ∈ new → IsMean cfg (w.group.map Sample.x) v) ∧
    ∀ v, .absY v ∈ new → IsMean cfg (w.group.map Sample.y) v

/-- `touch_timer_fire` is run with the controller, finds the pen down and has samples. -/
def Reports (cfg : Config) (s : State) (e : Event) : Prop :=
  s.count ≠ 0 ∧ ∃ data, fires cfg s e = some data ∧ updown data.1 data.2 = true

-- What is left over and the sum of a group make the mean of the group.
def Cancels (cfg : Config) (left : BitVec 32) (vs : List (BitVec 32)) : Prop :=
  left + BitVec.ofNat 32 (vs.map BitVec.toNat).sum =
    BitVec.ofNat 32 ((vs.map BitVec.toNat).sum / 2 ^ cfg.shift)

/-- Positions are reported only of full groups, and only when adding up is the same as averaging. -/
def FullGroups (cfg : Config) (_ : List Event) (w : Watched) (e : Event) : Prop :=
  Reports cfg w.sys.driver e → w.group.length = 2 ^ cfg.shift ∧
    Cancels cfg w.left.x (w.group.map Sample.x) ∧ Cancels cfg w.left.y (w.group.map Sample.y)

section Sums

variable {cfg : Config} {left v : BitVec 32} {vs : List (BitVec 32)}

/-- As long as the sum does not run over, it is the mean exactly if nothing was left over and either
there is no oversampling or all the samples are 0. -/
theorem cancels_iff (hrun : left.toNat + (vs.map BitVec.toNat).sum < 2 ^ 32) :
    Cancels cfg left vs ↔ left = 0 ∧ (cfg.shift = 0 ∨ (vs.map BitVec.toNat).sum = 0) := by
  unfold Cancels
  generalize (vs.map BitVec.toNat).sum = n at hrun ⊢
  have hdiv : n / 2 ^ cfg.shift ≤ n := Nat.div_le_self ..
  constructor
  · intro h
    have hnat := congrArg BitVec.toNat h
    rw [BitVec.toNat_add, BitVec.toNat_ofNat, BitVec.toNat_ofNat, Nat.mod_eq_of_lt (by omega : n < _),
      Nat.mod_eq_of_lt hrun, Nat.mod_eq_of_lt (by omega)] at hnat
    refine ⟨BitVec.eq_of_toNat_eq (show left.toNat = 0 by omega), ?_⟩
    by_contra hne
    rw [not_or] at hne
    have hlt : n / 2 ^ cfg.shift < n :=
      Nat.div_lt_self (Nat.pos_of_ne_zero hne.2) (Nat.one_lt_two_pow hne.1)
    omega
  · rintro ⟨rfl, h0 | h0⟩
    · rw [h0]
      simp
    · rw [h0]
      simp

theorem sum_le (h : ∀ v ∈ vs, v.toNat ≤ cfg.mask.toNat) :
    (vs.map BitVec.toNat).sum ≤ vs.length * cfg.mask.toNat := by
  induction vs with
  | nil => simp
  | cons v vs ih =>
    rw [List.forall_mem_cons] at h
    have hvs := ih h.2
    rw [List.map_cons, List.sum_cons, List.length_cons, Nat.add_mul, Nat.one_mul]
    omega

theorem mask_lt : cfg.mask.toNat < 2 ^ 32 := cfg.mask.isLt

-- When a group of samples is full, the accumulator holds its mean exactly if the rest cancels out.
theorem isMean_iff (h : ∀ v ∈ vs, v.toNat ≤ cfg.mask.toNat) :
    IsMean cfg vs (left + BitVec.ofNat 32 (vs.map BitVec.toNat).sum) ↔
      vs.length = 2 ^ cfg.shift ∧ Cancels cfg left vs := by
  have hle := sum_le h
  have hmean : vs.length = 2 ^ cfg.shift →
      (vs.map BitVec.toNat).sum / 2 ^ cfg.shift ≤ cfg.mask.toNat := by
    intro hlen
    rw [hlen] at hle
    exact Nat.div_le_of_le_mul hle
  have hmask := @mask_lt cfg
  constructor
  · rintro ⟨hlen, hv, _⟩
    refine ⟨hlen, BitVec.eq_of_toNat_eq ?_⟩
    rw [hv, BitVec.toNat_ofNat, Nat.mod_eq_of_lt]
    exact Nat.lt_of_le_of_lt (hmean hlen) hmask
  · rintro ⟨hlen, hc⟩
    have hv : (left + BitVec.ofNat 32 (vs.map BitVec.toNat).sum).toNat =
        (vs.map BitVec.toNat).sum / 2 ^ cfg.shift := by
      rw [hc, BitVec.toNat_ofNat, Nat.mod_eq_of_lt]
      exact Nat.lt_of_le_of_lt (hmean hlen) hmask
    exact ⟨hlen, hv, hv ▸ hmean hlen⟩

end Sums

/-- What a step does to the accumulators and the reports: it reports a position and starts anew, it
reports that the pen is up, it adds a sample up, or none of these. -/
inductive Effect (s t : State) : Option (BitVec 32 × BitVec 32) → Option Sample → Prop
  | down {data} : updown data.1 data.2 = true → t.xp = 0 → t.yp = 0 → t.count = 0 →
      t.reports = s.reports ++ (if s.count ≠ 0 then
        [.absX s.xp, .absY s.yp, .btnTouch 1, .absPressure 1, .sync] else []) →
      Effect s t (some data) none
  | up {data} : updown data.1 data.2 = false → t.xp = s.xp → t.yp = s.yp → t.count = 0 →
      t.reports = s.reports ++ [.btnTouch 0, .absPressure 0, .sync] → Effect s t (some data) none
  | sample {p} : t.xp = s.xp + p.x → t.yp = s.yp + p.y → t.count = s.count + 1 →
      t.reports = s.reports → Effect s t none (some p)
  | idle : t.xp = s.xp → t.yp = s.yp → t.count = s.count → t.reports = s.reports →
      Effect s t none none

section Steps

variable {cfg : Config} {s t : State} {data0 data1 data0' data1' : BitVec 32}

theorem mayUse_iff : cfg.mayUse s = true ↔ ¬(cfg.s5p_adc = true ∧ s.adc_lock_id ≠ LOCK_TS) := by
  unfold Config.mayUse
  cases cfg.s5p_adc <;> simp

theorem report_position_plain (ha : cfg.android = false) (hd : s.downflag = 0) :
    report_position cfg s = s.report [.absX s.xp, .absY s.yp, .btnTouch 1, .absPressure 1, .sync] := by
  unfold report_position
  rw [if_neg (by simp [ha]), if_pos hd]

theorem report_up_plain (ha : cfg.android = false) :
    report_up cfg s = s.report [.btnTouch 0, .absPressure 0, .sync] := by
  unfold report_up
  rw [if_neg (by simp [ha])]

-- `downflag` is never set, so it does not keep a position from being reported.
theorem touch_timer_fire_effect (ha : cfg.android = false) (hu : cfg.mayUse s = true)
    (hd : s.downflag = 0) :
    Effect s (touch_timer_fire cfg data0 data1 s) (some (data0, data1)) none ∧
      (touch_timer_fire cfg data0 data1 s).downflag = 0 := by
  unfold touch_timer_fire
  rw [if_neg (mayUse_iff.mp hu)]
  by_cases hpen : updown data0 data1 = true
  · rw [if_pos hpen, report_position_plain ha hd]
    by_cases hc : s.count ≠ 0
    · simp only [if_pos hc]
      exact ⟨.down hpen rfl rfl rfl (by rw [if_pos hc]; rfl), hd⟩
    · simp only [if_neg hc]
      exact ⟨.down hpen rfl rfl rfl (by rw [if_neg hc, List.append_nil]), hd⟩
  · rw [if_neg hpen, report_up_plain ha]
    have hup : updown data0 data1 = false := by simpa using hpen
    dsimp only
    split
    · exact ⟨.up hup rfl rfl rfl rfl, hd⟩
    · exact ⟨.up hup rfl rfl rfl rfl, hd⟩

theorem stylus_action_effect (hd : s.downflag = 0) :
    Effect s (stylus_action cfg data0 data1 s) none (sampled cfg s (.action data0 data1)) ∧
      (stylus_action cfg data0 data1 s).downflag = 0 := by
  unfold stylus_action
  show Effect s _ none (if cfg.mayUse s = true then some ⟨_, _⟩ else none) ∧ _
  by_cases hu : cfg.mayUse s = true
  · rw [if_neg (mayUse_iff.mp hu), if_pos hu]
    unfold Config.mask
    dsimp only
    split
    · split
      · exact ⟨.sample rfl rfl rfl rfl, hd⟩
      · exact ⟨.sample rfl rfl rfl rfl, hd⟩
    · split
      · exact ⟨.sample rfl rfl rfl rfl, hd⟩
      · exact ⟨.sample rfl rfl rfl rfl, hd⟩
  · rw [if_pos (not_not.mp (mt mayUse_iff.mpr hu)), if_neg hu]
    exact ⟨.idle rfl rfl rfl rfl, hd⟩

-- What the first lines of the pen interrupt leave when they get or have the controller.
theorem pen_effect (ha : cfg.android = false) (hu : cfg.mayUse s = true) (hd : s.downflag = 0) :
    Effect s (if updown data0 data1 then touch_timer_fire cfg data0' data1' s else s)
        (if updown data0 data1 then some (data0', data1') else none) none ∧
      (if updown data0 data1 then touch_timer_fire cfg data0' data1' s else s).downflag = 0 := by
  by_cases hpen : updown data0 data1 = true
  · simp only [if_pos hpen]
    exact touch_timer_fire_effect ha hu hd
  · simp only [if_neg hpen]
    exact ⟨.idle rfl rfl rfl rfl, hd⟩

theorem Effect.of_eq {s' : State} {fire : Option (BitVec 32 × BitVec 32)} {sample : Option Sample}
    (h : Effect s' t fire sample) (hx : s'.xp = s.xp) (hy : s'.yp = s.yp) (hc : s'.count = s.count)
    (hr : s'.reports = s.reports) : Effect s t fire sample := by
  cases h with
  | down hpen hx' hy' hc' hr' =>
    rw [hx, hy, hc, hr] at hr'
    exact .down hpen hx' hy' hc' hr'
  | up hpen hx' hy' hc' hr' => exact .up hpen (hx'.trans hx) (hy'.trans hy) hc' (hr ▸ hr')
  | sample hx' hy' hc' hr' =>
    rw [hx] at hx'
    rw [hy] at hy'
    rw [hc] at hc'
    exact .sample hx' hy' hc' (hr'.trans hr)
  | idle hx' hy' hc' hr' =>
    exact .idle (hx'.trans hx) (hy'.trans hy) (hc'.trans hc) (hr'.trans hr)

theorem stylus_updown_effect (ha : cfg.android = false) (hd : s.downflag = 0) :
    Effect s (stylus_updown cfg data0 data1 data0' data1' s)
        (fires cfg s (.updown data0 data1 data0' data1')) none ∧
      (stylus_updown cfg data0 data1 data0' data1' s).downflag = 0 := by
  unfold stylus_updown
  show Effect s _ (if ((cfg.mayUse s || decide (0 < s.ADC_LOCK)) && updown data0 data1) = true then
    some (data0', data1') else none) none ∧ _
  by_cases hu : cfg.mayUse s = true
  · rw [if_neg (mayUse_iff.mp hu), hu, Bool.true_or, Bool.true_and]
    exact pen_effect ha hu hd
  · rw [if_pos (not_not.mp (mt mayUse_iff.mpr hu)), Bool.eq_false_iff.mpr hu, Bool.false_or]
    by_cases hl : 0 < s.ADC_LOCK
    · rw [s3c_ts_adc_lock_free hl, decide_eq_true hl, Bool.true_and]
      let s' : State := { s with ADC_LOCK := s.ADC_LOCK - 1, adc_lock_id := LOCK_TS }
      have hu' : cfg.mayUse s' = true := mayUse_iff.mpr fun h ↦ h.2 rfl
      have hpen := @pen_effect cfg s' data0 data1 data0' data1' ha hu' hd
      exact ⟨hpen.1.of_eq rfl rfl rfl rfl, hpen.2⟩
    · rw [s3c_ts_adc_lock_taken (Nat.eq_zero_of_not_pos hl), decide_eq_false hl, Bool.false_and]
      show Effect s (if s.adc_lock_id ≠ 0 then s3c_ts_adc_unlock s else s) none none ∧
        (if s.adc_lock_id ≠ 0 then s3c_ts_adc_unlock s else s).downflag = 0
      split
      · exact ⟨.idle rfl rfl rfl rfl, hd⟩
      · exact ⟨.idle rfl rfl rfl rfl, hd⟩

theorem timer_effect (ha : cfg.android = false) (hd : s.downflag = 0) :
    Effect s (touch_timer_fire cfg data0 data1 s) (fires cfg s (.timer data0 data1)) none ∧
      (touch_timer_fire cfg data0 data1 s).downflag = 0 := by
  show Effect s _ (if cfg.mayUse s = true then some (data0, data1) else none) none ∧ _
  by_cases hu : cfg.mayUse s = true
  · rw [if_pos hu]
    exact touch_timer_fire_effect ha hu hd
  · rw [if_neg hu, touch_timer_fire, if_pos (not_not.mp (mt mayUse_iff.mpr hu))]
    exact ⟨.idle rfl rfl rfl rfl, hd⟩

theorem adc_lock_effect (id : Nat) (hd : s.downflag = 0) :
    Effect s (s3c_ts_adc_lock id s).2 none none ∧ (s3c_ts_adc_lock id s).2.downflag = 0 := by
  by_cases hl : 0 < s.ADC_LOCK
  · rw [s3c_ts_adc_lock_free hl]
    exact ⟨.idle rfl rfl rfl rfl, hd⟩
  · rw [s3c_ts_adc_lock_taken (Nat.eq_zero_of_not_pos hl)]
    exact ⟨.idle rfl rfl rfl rfl, hd⟩

theorem step_effect {e : Event} {S T : System} (ha : cfg.android = false)
    (hd : S.driver.downflag = 0) (hs : Step cfg S e T) :
    Effect S.driver T.driver (fires cfg S.driver e) (sampled cfg S.driver e) ∧
      T.driver.downflag = 0 := by
  cases hs with
  | updown _ _ _ _ => exact stylus_updown_effect ha hd
  | action _ _ => exact stylus_action_effect hd
  | timer data0 data1 _ =>
    have h := @timer_effect cfg { S.driver with touch_timer := false } data0 data1 ha hd
    exact ⟨h.1.of_eq rfl rfl rfl rfl, h.2⟩
  | @acquire ret d c _ hacq =>
    have h := @adc_lock_effect S.driver LOCK_ADC hd
    rw [show s3c_ts_adc_lock LOCK_ADC S.driver = (ret, d) from hacq] at h
    exact h
  | release _ _ => exact ⟨.idle rfl rfl rfl rfl, hd⟩

end Steps

/-- The accumulators are what was left over plus the group. -/
structure AddedUp (cfg : Config) (w : Watched) : Prop where
  downflag : w.sys.driver.downflag = 0
  count : w.sys.driver.count = BitVec.ofNat 32 w.group.length
  xp : w.sys.driver.xp =
    w.left.x + BitVec.ofNat 32 ((w.group.map Sample.x).map BitVec.toNat).sum
  yp : w.sys.driver.yp =
    w.left.y + BitVec.ofNat 32 ((w.group.map Sample.y).map BitVec.toNat).sum
  bounded : ∀ p ∈ w.group, p.x.toNat ≤ cfg.mask.toNat ∧ p.y.toNat ≤ cfg.mask.toNat

section Run

variable {cfg : Config} {es : List Event} {e : Event} {w w' : Watched} {s : State} {p : Sample}

theorem addedUp_init : AddedUp cfg Watched.init :=
  ⟨rfl, rfl, rfl, rfl, fun _ hp ↦ by cases hp⟩

theorem toNat_and_le (x m : BitVec 32) : (x &&& m).toNat ≤ m.toNat := by
  rw [BitVec.toNat_and]
  exact Nat.and_le_right

theorem sampled_bounded (h : sampled cfg s e = some p) :
    p.x.toNat ≤ cfg.mask.toNat ∧ p.y.toNat ≤ cfg.mask.toNat := by
  unfold sampled at h
  split at h
  · split at h
    · obtain rfl := Option.some.inj h
      exact ⟨toNat_and_le .., toNat_and_le ..⟩
    · cases h
  · cases h

-- One more value on top of a sum.
theorem add_sum_snoc (left v : BitVec 32) (vs : List (BitVec 32)) :
    left + BitVec.ofNat 32 (vs.map BitVec.toNat).sum + v =
      left + BitVec.ofNat 32 ((vs ++ [v]).map BitVec.toNat).sum := by
  rw [List.map_append, List.sum_append, BitVec.ofNat_add, BitVec.add_assoc]
  simp

theorem addedUp_step (ha : cfg.android = false) (h : AddedUp cfg w) (hs : WatchedStep cfg w e w') :
    AddedUp cfg w' := by
  cases hs with
  | @mk t hs =>
    rcases step_effect ha h.downflag hs with ⟨heff, hd⟩
    have hp := @sampled_bounded cfg e w.sys.driver
    generalize fires cfg w.sys.driver e = fire, sampled cfg w.sys.driver e = sample at heff hp ⊢
    cases heff with
    | down _ hx hy hc _ => exact ⟨hd, hc, by simp, by simp, fun _ hp ↦ by cases hp⟩
    | up _ hx hy hc _ => exact ⟨hd, hc, by simp, by simp, fun _ hp ↦ by cases hp⟩
    | @sample p hx hy hc _ =>
      refine ⟨hd, ?_, ?_, ?_, fun q hq ↦ ?_⟩
      · show t.driver.count = BitVec.ofNat 32 (w.group ++ [p]).length
        rw [hc, h.count, List.length_append, BitVec.ofNat_add]
        rfl
      · show t.driver.xp = w.left.x +
          BitVec.ofNat 32 (((w.group ++ [p]).map Sample.x).map BitVec.toNat).sum
        have hmap : (w.group ++ [p]).map Sample.x = w.group.map Sample.x ++ [p.x] :=
          List.map_append ..
        rw [hmap, hx, h.xp, add_sum_snoc]
      · show t.driver.yp = w.left.y +
          BitVec.ofNat 32 (((w.group ++ [p]).map Sample.y).map BitVec.toNat).sum
        have hmap : (w.group ++ [p]).map Sample.y = w.group.map Sample.y ++ [p.y] :=
          List.map_append ..
        rw [hmap, hy, h.yp, add_sum_snoc]
      · rcases List.mem_append.mp hq with hq | hq
        · exact h.bounded q hq
        · rw [List.mem_singleton.mp hq]
          exact hp rfl
    | idle hx hy hc _ =>
      show AddedUp cfg ⟨t, w.group ++ [], w.left⟩
      rw [List.append_nil]
      exact ⟨hd, hc.trans h.count, hx.trans h.xp, hy.trans h.yp, h.bounded⟩

-- What a step reports is what it appends.
theorem forall_new_iff {rs ss new : List Report} {Q : List Report → Prop} (h : ss = rs ++ new) :
    (∀ new', ss = rs ++ new' → Q new') ↔ Q new := by
  constructor
  · exact fun hq ↦ hq new h
  · intro hq new' h'
    rwa [← List.append_cancel_left (h.symm.trans h')]

-- The position that a step reports is what the accumulators hold.
theorem reported_iff (h : AddedUp cfg w) :
    ((∀ v, .absX v ∈ [Report.absX w.sys.driver.xp, .absY w.sys.driver.yp, .btnTouch 1,
          .absPressure 1, .sync] → IsMean cfg (w.group.map Sample.x) v) ∧
      ∀ v, .absY v ∈ [Report.absX w.sys.driver.xp, .absY w.sys.driver.yp, .btnTouch 1,
          .absPressure 1, .sync] → IsMean cfg (w.group.map Sample.y) v) ↔
      w.group.length = 2 ^ cfg.shift ∧
        Cancels cfg w.left.x (w.group.map Sample.x) ∧ Cancels cfg w.left.y (w.group.map Sample.y) := by
  have hx : ∀ v ∈ w.group.map Sample.x, v.toNat ≤ cfg.mask.toNat :=
    List.forall_mem_map.mpr fun p hp ↦ (h.bounded p hp).1
  have hy : ∀ v ∈ w.group.map Sample.y, v.toNat ≤ cfg.mask.toNat :=
    List.forall_mem_map.mpr fun p hp ↦ (h.bounded p hp).2
  simp only [List.mem_cons, Report.absX.injEq, Report.absY.injEq, List.not_mem_nil, reduceCtorEq,
    or_false, false_or, forall_eq]
  rw [h.xp, h.yp, isMean_iff hx, isMean_iff hy, List.length_map, List.length_map, ← and_and_left]

theorem averaged_step (ha : cfg.android = false) (h : AddedUp cfg w) (hs : WatchedStep cfg w e w') :
    FullGroups cfg es w e ↔ Averaged cfg w w' := by
  cases hs with
  | @mk t hs =>
    rcases step_effect ha h.downflag hs with ⟨heff, -⟩
    unfold FullGroups Averaged Reports
    show _ ↔ ∀ new, t.driver.reports = w.sys.driver.reports ++ new → _
    generalize fires cfg w.sys.driver e = fire, sampled cfg w.sys.driver e = sample at heff ⊢
    cases heff with
    | @down data hpen _ _ _ hr =>
      rw [forall_new_iff hr]
      by_cases hc : w.sys.driver.count ≠ 0
      · rw [if_pos hc, reported_iff h]
        exact forall_prop_of_true ⟨hc, data, rfl, hpen⟩
      · rw [if_neg hc]
        exact iff_of_true (fun hrep ↦ absurd hrep.1 hc) (by simp)
    | up hpen _ _ _ hr =>
      rw [forall_new_iff hr]
      refine iff_of_true ?_ (by simp)
      rintro ⟨_, data, hdata, hpen'⟩
      obtain rfl := Option.some.inj hdata
      rw [hpen] at hpen'
      cases hpen'
    | sample _ _ _ hr =>
      rw [forall_new_iff (hr.trans (List.append_nil _).symm)]
      exact iff_of_true (fun hrep ↦ by rcases hrep.2 with ⟨_, hdata, _⟩; cases hdata) (by simp)
    | idle _ _ _ hr =>
      rw [forall_new_iff (hr.trans (List.append_nil _).symm)]
      exact iff_of_true (fun hrep ↦ by rcases hrep.2 with ⟨_, hdata, _⟩; cases hdata) (by simp)

/-- Every reported position is the mean of one full group exactly in the runs in which a position is
reported only of full groups and what is left over cancels out what is not divided. -/
theorem averages_iff (cfg : Config) :
    GuardedRun (WatchedStep cfg.plain) (FullGroups cfg.plain) Watched.init es w ↔
      RunWhere (WatchedStep cfg.plain) (fun _ w _ w' ↦ Averaged cfg.plain w w') Watched.init es w := by
  apply RunWhere.iff_of_invariant (fun _ w ↦ AddedUp cfg.plain w) addedUp_init
  · exact fun es w e w' hi hs _ ↦ addedUp_step rfl hi hs
  · exact fun es w e w' hi hs ↦ averaged_step rfl hi hs

end Run

-- One more sample.
theorem watched_action {cfg : Config} {S : System} {t : State} {group : List Sample} {left p : Sample}
    (data0 data1 : BitVec 32) (ht : stylus_action cfg data0 data1 S.driver = t)
    (hp : sampled cfg S.driver (.action data0 data1) = some p) :
    WatchedStep cfg ⟨S, group, left⟩ (.action data0 data1) ⟨⟨t, S.holds⟩, group ++ [p], left⟩ := by
  subst ht
  have h : WatchedStep cfg ⟨S, group, left⟩ (.action data0 data1) _ := .mk (.action data0 data1)
  rw [hp] at h
  exact h

/-- The driver's own configuration: groups of four samples of 10 bits. -/
def s3c_ts_default_cfg : Config := ⟨true, false, 2, 10⟩

-- The driver with the pen down and `count` equal samples added up.
def gathered (sum count : BitVec 32) (touch_timer : Bool) : System :=
  ⟨{ State.init with
      ADC_LOCK := 0, adc_lock_id := LOCK_TS, xp := sum, yp := sum, count := count,
      touch_timer := touch_timer }, fun _ ↦ 0⟩

/-- Four samples of 100 are reported as the position 400. -/
theorem sum_reported :
    ∃ es w w', Run (WatchedStep s3c_ts_default_cfg.plain) Watched.init es w ∧
      WatchedStep s3c_ts_default_cfg.plain w (.timer 100 100) w' ∧
      w.group = [⟨100, 100⟩, ⟨100, 100⟩, ⟨100, 100⟩, ⟨100, 100⟩] ∧
      w.sys.driver.reports = [] ∧ .absX 400 ∈ w'.sys.driver.reports ∧
      ¬Averaged s3c_ts_default_cfg.plain w w' := by
  have h₀ : Run (WatchedStep s3c_ts_default_cfg.plain) Watched.init _
      ⟨gathered 0 0 false, [], ⟨0, 0⟩⟩ := .snoc .nil (.mk (.updown 0 0 0 0))
  have h₁ : Run (WatchedStep s3c_ts_default_cfg.plain) Watched.init _
      ⟨gathered 100 1 false, _, ⟨0, 0⟩⟩ := h₀.snoc (watched_action 100 100 rfl rfl)
  have h₂ : Run (WatchedStep s3c_ts_default_cfg.plain) Watched.init _
      ⟨gathered 200 2 false, _, ⟨0, 0⟩⟩ := h₁.snoc (watched_action 100 100 rfl rfl)
  have h₃ : Run (WatchedStep s3c_ts_default_cfg.plain) Watched.init _
      ⟨gathered 300 3 false, _, ⟨0, 0⟩⟩ := h₂.snoc (watched_action 100 100 rfl rfl)
  have h₄ : Run (WatchedStep s3c_ts_default_cfg.plain) Watched.init _
      ⟨gathered 400 4 true, _, ⟨0, 0⟩⟩ := h₃.snoc (watched_action 100 100 rfl rfl)
  have hfire : touch_timer_fire s3c_ts_default_cfg.plain 100 100 (gathered 400 4 false).driver =
      (gathered 0 0 false).driver.report
        [.absX 400, .absY 400, .btnTouch 1, .absPressure 1, .sync] := rfl
  have hmem : .absX 400 ∈ (touch_timer_fire s3c_ts_default_cfg.plain 100 100
      (gathered 400 4 false).driver).reports := by
    rw [hfire]
    exact List.mem_cons_self ..
  refine ⟨_, _, _, h₄, .mk (.timer 100 100 rfl), rfl, rfl, hmem, fun h ↦ ?_⟩
  have hmean := ((h _ (List.nil_append _).symm).1 400 hmem).mean
  revert hmean
  decide

end OK210Drivers.Touch
