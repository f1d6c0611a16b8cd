import Mathlib.Algebra.GroupWithZero.Nat
import Mathlib.Logic.Function.Basic
import OK210Drivers.Library.Runs

/-!
# The touch screen driver and the ADC it shares

The pen interrupt, the conversion interrupt, the timer and the calls of ADC clients, with what the driver
reads from the data registers as arguments.  Writes to the controller's registers are left out: no
function of the driver depends on them but through what it reads.
-/

namespace OK210Drivers.Touch

-- `CONFIG_S5P_ADC`, `CONFIG_ANDROID`, and what `s3c_ts_probe` copies from the platform data.
structure Config where
  s5p_adc : Bool
  android : Bool
  shift : Nat
  resol_bit : Nat

def LOCK_FREE : Nat := 0
def LOCK_TS : Nat := 1
def LOCK_ADC : Nat := 2

def S3C_ADCDAT0_UPDOWN : BitVec 32 := 0x8000
def S3C_ADCDAT1_UPDOWN : BitVec 32 := 0x8000
def S3C_ADCDAT0_XPDATA_MASK : BitVec 32 := 0x03ff
def S3C_ADCDAT1_YPDATA_MASK : BitVec 32 := 0x03ff
def S3C_ADCDAT0_XPDATA_MASK_12BIT : BitVec 32 := 0x0fff
def S3C_ADCDAT1_YPDATA_MASK_12BIT : BitVec 32 := 0x0fff

-- What the driver tells the input core.
inductive Report
  | absX (v : BitVec 32)
  | absY (v : BitVec 32)
  | absZ (v : BitVec 32)
  | btnTouch (v : BitVec 32)
  | absPressure (v : BitVec 32)
  | sync
  deriving DecidableEq

-- `long` and `int` have 32 bits.  `ADC_LOCK` is the count of the semaphore.
structure State where
  ADC_LOCK : Nat
  adc_lock_id : Nat
  xp : BitVec 32
  yp : BitVec 32
  xp_old : BitVec 32
  yp_old : BitVec 32
  count : BitVec 32
  downflag : BitVec 32
  pointercal : Fin 7 → BitVec 32
  touch_timer : Bool
  reports : List Report

def State.init : State where
  ADC_LOCK := 1
  adc_lock_id := LOCK_FREE
  xp := 0
  yp := 0
  xp_old := 0
  yp_old := 0
  count := 0
  downflag := 0
  pointercal := fun i ↦ if i = 0 ∨ i = 4 ∨ i = 6 then 1 else 0
  touch_timer := false
  reports := []

def down_trylock (s : State) : Int × State :=
  if 0 < s.ADC_LOCK then (0, { s with ADC_LOCK := s.ADC_LOCK - 1 }) else (1, s)

def up (s : State) : State := { s with ADC_LOCK := s.ADC_LOCK + 1 }

def s3c_ts_adc_lock (id : Nat) (s : State) : Int × State :=
  match down_trylock s with
  | (ret, s') => if ret = 0 then (ret, { s' with adc_lock_id := id }) else (ret, s')

def s3c_ts_adc_unlock (s : State) : State := up { s with adc_lock_id := 0 }

def X6410_adc_acquire_io (s : State) : Int × State := s3c_ts_adc_lock LOCK_ADC s

def X6410_adc_release_io (s : State) : State := s3c_ts_adc_unlock s

def State.report (rs : List Report) (s : State) : State := { s with reports := s.reports ++ rs }

def updown (data0 data1 : BitVec 32) : Bool :=
  data0 &&& S3C_ADCDAT0_UPDOWN = 0 && data1 &&& S3C_ADCDAT1_UPDOWN = 0

-- The calibrated position, in the 32-bit arithmetic of `int`.  On ARM a division by zero is 0.
def calibrate (s : State) : BitVec 32 × BitVec 32 :=
  let x := s.xp
  let y := s.yp
  let a := s.pointercal
  ((a 2 + a 0 * x + a 1 * y).sdiv (a 6), (a 5 + a 3 * x + a 4 * y).sdiv (a 6))

-- What `touch_timer_fire` does with a group of samples when the pen is down.
def report_position (cfg : Config) (s : State) : State :=
  if cfg.android then
    let (xp, yp) := calibrate s
    let s' :=
      if xp ≠ s.xp_old ∨ yp ≠ s.yp_old then
        s.report [.absX xp, .absY yp, .absZ 0, .btnTouch 1, .absPressure 1, .sync]
      else s
    { s' with xp_old := xp, yp_old := yp }
  else if s.downflag = 0 then
    s.report [.absX s.xp, .absY s.yp, .btnTouch 1, .absPressure 1, .sync]
  else { s with downflag := 0 }

-- And what it reports when the pen is up.
def report_up (cfg : Config) (s : State) : State :=
  if cfg.android then
    s.report [.absX s.xp_old, .absY s.yp_old, .absZ 0, .btnTouch 0, .sync]
  else s.report [.btnTouch 0, .absPressure 0, .sync]

def touch_timer_fire (cfg : Config) (data0 data1 : BitVec 32) (s : State) : State :=
  if cfg.s5p_adc = true ∧ s.adc_lock_id ≠ LOCK_TS then s
  else if updown data0 data1 then
    let s' := if s.count ≠ 0 then report_position cfg s else s
    { s' with xp := 0, yp := 0, count := 0 }
  else
    let s' := report_up cfg { s with count := 0 }
    if cfg.s5p_adc = true ∧ s'.adc_lock_id = LOCK_TS then s3c_ts_adc_unlock s' else s'

-- `touch_timer_fire` reads the data registers again.
def stylus_updown (cfg : Config) (data0 data1 data0' data1' : BitVec 32) (s : State) : State :=
  let pen (s : State) : State :=
    if updown data0 data1 then touch_timer_fire cfg data0' data1' s else s
  if cfg.s5p_adc = true ∧ s.adc_lock_id ≠ LOCK_TS then
    match s3c_ts_adc_lock LOCK_TS s with
    | (ret, s') =>
      if ret ≠ 0 then
        if s'.adc_lock_id ≠ 0 then s3c_ts_adc_unlock s' else s'
      else pen s'
  else pen s

def stylus_action (cfg : Config) (data0 data1 : BitVec 32) (s : State) : State :=
  if cfg.s5p_adc = true ∧ s.adc_lock_id ≠ LOCK_TS then s
  else
    let s₁ :=
      if cfg.resol_bit = 12 then
        { s with
          xp := s.xp + (data0 &&& S3C_ADCDAT0_XPDATA_MASK_12BIT)
          yp := s.yp + (data1 &&& S3C_ADCDAT1_YPDATA_MASK_12BIT) }
      else
        { s with
          xp := s.xp + (data0 &&& S3C_ADCDAT0_XPDATA_MASK)
          yp := s.yp + (data1 &&& S3C_ADCDAT1_YPDATA_MASK) }
    let s₂ := { s₁ with count := s₁.count + 1 }
    if s₂.count.slt (1 <<< cfg.shift) then s₂ else { s₂ with touch_timer := true }

-- The driver, and how many successful acquires each client has not released yet.
structure System where
  driver : State
  holds : Nat → Nat

def System.init : System := ⟨State.init, fun _ ↦ 0⟩

inductive Event
  | updown (data0 data1 data0' data1' : BitVec 32)
  | action (data0 data1 : BitVec 32)
  | timer (data0 data1 : BitVec 32)
  | acquire (c : Nat)
  | release (c : Nat)

inductive Step (cfg : Config) : System → Event → System → Prop
  | updown {s} (data0 data1 data0' data1') : Step cfg s (.updown data0 data1 data0' data1')
      { s with driver := stylus_updown cfg data0 data1 data0' data1' s.driver }
  | action {s} (data0 data1) : Step cfg s (.action data0 data1)
      { s with driver := stylus_action cfg data0 data1 s.driver }
  | timer {s} (data0 data1) : s.driver.touch_timer = true → Step cfg s (.timer data0 data1)
      { s with driver := touch_timer_fire cfg data0 data1 { s.driver with touch_timer := false } }
  | acquire {s ret d} (c) : cfg.s5p_adc = true → X6410_adc_acquire_io s.driver = (ret, d) →
      Step cfg s (.acquire c)
        { driver := d
          holds := if ret = 0 then Function.update s.holds c (s.holds c + 1) else s.holds }
  | release {s c} : cfg.s5p_adc = true → 0 < s.holds c → Step cfg s (.release c)
      { driver := X6410_adc_release_io s.driver,
        holds := Function.update s.holds c (s.holds c - 1) }

end OK210Drivers.Touch
