import OK210Drivers.Library.Runs

/-!
# The LED ioctls

`LED_ON` and `LED_OFF` clear and set the bit of `GPH2DAT` that the argument numbers, whatever that is.
Four bits are LEDs; the others are not the driver's.
-/

open Library

namespace OK210Drivers.Led

-- `_IOW('L', nr, int)`
def iow (nr : BitVec 32) : BitVec 32 := 0x40044c00 ||| nr

def LED_ON : BitVec 32 := iow 1
def LED_OFF : BitVec 32 := iow 0

/-- `0x1 << val`.  What is made of a shift by 32 and more is up to the compiler and the processor. -/
def shift_one (oversized : BitVec 32 → BitVec 32) (val : BitVec 32) : BitVec 32 :=
  if val.toNat < 32 then BitVec.twoPow 32 val.toNat else oversized val

/-- `led_ioctl`: what it returns, and `GPH2DAT`. -/
def led_ioctl (oversized : BitVec 32 → BitVec 32) (cmd arg GPH2DAT : BitVec 32) : Int × BitVec 32 :=
  if cmd = LED_OFF then (0, GPH2DAT ||| shift_one oversized arg)
  else if cmd = LED_ON then (0, GPH2DAT &&& ~~~shift_one oversized arg)
  else (0, GPH2DAT)

structure Ioctl where
  cmd : BitVec 32
  arg : BitVec 32

def IoctlStep (oversized : BitVec 32 → BitVec 32) (dat : BitVec 32) (e : Ioctl) (dat' : BitVec 32) :
    Prop :=
  dat' = (led_ioctl oversized e.cmd e.arg dat).2

/-- The level to which a command drives the LED that its argument names. -/
def Ioctl.drives (i : Nat) (e : Ioctl) : Option Bool :=
  if e.arg.toNat = i then
    if e.cmd = LED_OFF then some true else if e.cmd = LED_ON then some false else none
  else none

/-- The level of the last command that named an LED, or the initial one. -/
def ledLevel (initial : BitVec 32) (es : List Ioctl) (i : Nat) : Bool :=
  (lastSome (Ioctl.drives i) es).getD (initial.getLsbD i)

/-- Each LED has the level that it was last given, and all else is as it was. -/
structure LedsOnly (initial : BitVec 32) (es : List Ioctl) (dat : BitVec 32) : Prop where
  leds : ∀ i < 4, dat.getLsbD i = ledLevel initial es i
  others : ∀ i, 4 ≤ i → dat.getLsbD i = initial.getLsbD i

/-- A command whose argument is no LED finds all the bits that it drives at their level. -/
def NothingToDo (oversized : BitVec 32 → BitVec 32) (_ : List Ioctl) (dat : BitVec 32) (e : Ioctl) :
    Prop :=
  4 ≤ e.arg.toNat →
    (e.cmd = LED_OFF → ∀ i, (shift_one oversized e.arg).getLsbD i → dat.getLsbD i = true) ∧
    (e.cmd = LED_ON → ∀ i, (shift_one oversized e.arg).getLsbD i → dat.getLsbD i = false)

variable {oversized : BitVec 32 → BitVec 32} {initial dat dat' arg cmd : BitVec 32} {es : List Ioctl}
  {e : Ioctl} {i : Nat}

theorem LED_ON_ne_LED_OFF : LED_ON ≠ LED_OFF := by decide

theorem ledLevel_snoc :
    ledLevel initial (es ++ [e]) i = (e.drives i).getD (ledLevel initial es i) := by
  unfold ledLevel
  rw [lastSome_snoc]
  cases e.drives i with
  | none => rfl
  | some level => rfl

theorem getLsbD_shift_one (harg : arg.toNat < 32) :
    (shift_one oversized arg).getLsbD i = decide (i = arg.toNat) := by
  unfold shift_one
  rw [if_pos harg, BitVec.getLsbD_twoPow, decide_eq_true harg, Bool.true_and]
  exact decide_eq_decide.mpr eq_comm

-- What one command makes of one bit.
theorem getLsbD_led_ioctl (hi : i < 32) : (led_ioctl oversized cmd arg dat).2.getLsbD i =
    if (shift_one oversized arg).getLsbD i then
      if cmd = LED_OFF then true else if cmd = LED_ON then false else dat.getLsbD i
    else dat.getLsbD i := by
  unfold led_ioctl
  by_cases hoff : cmd = LED_OFF
  · rw [if_pos hoff, if_pos hoff, BitVec.getLsbD_or]
    cases (shift_one oversized arg).getLsbD i
    · simp
    · simp
  · rw [if_neg hoff, if_neg hoff]
    by_cases hon : cmd = LED_ON
    · rw [if_pos hon, if_pos hon, BitVec.getLsbD_and, BitVec.getLsbD_not, decide_eq_true hi]
      cases (shift_one oversized arg).getLsbD i
      · simp
      · simp
    · rw [if_neg hon, if_neg hon]
      simp

/-- A command about an LED drives the bit of the LED. -/
theorem getLsbD_led_ioctl_led (harg : e.arg.toNat < 32) (hi : i < 32) :
    (led_ioctl oversized e.cmd e.arg dat).2.getLsbD i = (e.drives i).getD (dat.getLsbD i) := by
  rw [getLsbD_led_ioctl hi, getLsbD_shift_one harg]
  unfold Ioctl.drives
  by_cases h : e.arg.toNat = i
  · rw [if_pos h, if_pos (by simp [h])]
    split
    · rfl
    · split
      · rfl
      · rfl
  · rw [if_neg h, if_neg (by simp [Ne.symm h])]
    rfl

theorem drives_of_ne (h : e.arg.toNat ≠ i) : e.drives i = none := if_neg h

theorem led_ioctl_eq_iff (es : List Ioctl) (hbig : 4 ≤ e.arg.toNat) :
    (led_ioctl oversized e.cmd e.arg dat).2 = dat ↔ NothingToDo oversized es dat e := by
  have hbits : (led_ioctl oversized e.cmd e.arg dat).2 = dat ↔
      ∀ i < 32, (led_ioctl oversized e.cmd e.arg dat).2.getLsbD i = dat.getLsbD i := by
    constructor
    · intro h i _
      rw [h]
    · exact BitVec.eq_of_getLsbD_eq
  rw [hbits]
  unfold NothingToDo
  constructor
  · refine fun h _ ↦ ⟨fun hoff i hi ↦ ?_, fun hon i hi ↦ ?_⟩
    · have hi32 := BitVec.lt_of_getLsbD hi
      have hbit := h i hi32
      rw [getLsbD_led_ioctl hi32, if_pos hi, if_pos hoff] at hbit
      exact hbit.symm
    · have hi32 := BitVec.lt_of_getLsbD hi
      have hbit := h i hi32
      rw [getLsbD_led_ioctl hi32, if_pos hi, if_neg (hon ▸ LED_ON_ne_LED_OFF), if_pos hon] at hbit
      exact hbit.symm
  · intro h i hi
    obtain ⟨hoff, hon⟩ := h hbig
    rw [getLsbD_led_ioctl hi]
    split
    next hmask =>
      split
      next hcmd => exact (hoff hcmd i hmask).symm
      next =>
        split
        next hcmd => exact (hon hcmd i hmask).symm
        next => rfl
    next => rfl

theorem ledsOnly_nil : LedsOnly initial [] initial := ⟨fun _ _ ↦ rfl, fun _ _ ↦ rfl⟩

-- A command whose argument is no LED must leave the register alone.
theorem ledsOnly_snoc_iff (h : LedsOnly initial es dat) (hbig : 4 ≤ e.arg.toNat) :
    LedsOnly initial (es ++ [e]) dat' ↔ dat' = dat := by
  have hlevel : ∀ i < 4, ledLevel initial (es ++ [e]) i = dat.getLsbD i := by
    intro i hi
    rw [ledLevel_snoc, drives_of_ne (by omega), h.leds i hi]
    rfl
  constructor
  · intro h'
    apply BitVec.eq_of_getLsbD_eq
    intro i _
    rcases Nat.lt_or_ge i 4 with hi | hi
    · rw [h'.leds i hi, hlevel i hi]
    · rw [h'.others i hi, h.others i hi]
  · rintro rfl
    exact ⟨fun i hi ↦ (hlevel i hi).symm, h.others⟩

theorem ledsOnly_step (h : LedsOnly initial es dat) (hs : IoctlStep oversized dat e dat')
    (hc : NothingToDo oversized es dat e) : LedsOnly initial (es ++ [e]) dat' := by
  rcases Nat.lt_or_ge e.arg.toNat 4 with hled | hbig
  · refine ⟨fun i hi ↦ ?_, fun i hi ↦ ?_⟩
    · rw [hs, getLsbD_led_ioctl_led (by omega) (by omega), ledLevel_snoc, h.leds i hi]
    · rw [hs]
      rcases Nat.lt_or_ge i 32 with hi32 | hi32
      · rw [getLsbD_led_ioctl_led (by omega) hi32, drives_of_ne (by omega), ← h.others i hi]
        rfl
      · rw [BitVec.getLsbD_of_ge _ _ hi32, BitVec.getLsbD_of_ge _ _ hi32]
  · rw [ledsOnly_snoc_iff h hbig, hs]
    exact (led_ioctl_eq_iff es hbig).mpr hc

/-- The ioctls touch the LEDs only in just the runs in which every command with an argument of 4 and
more finds nothing to do. -/
theorem ledsOnly_runs_iff (oversized : BitVec 32 → BitVec 32) (initial : BitVec 32) :
    GuardedRun (IoctlStep oversized) (NothingToDo oversized) initial es dat ↔
      KeepingRun (IoctlStep oversized) (LedsOnly initial) initial es dat := by
  apply guardedRun_iff_keepingRun (LedsOnly initial) ledsOnly_nil fun _ _ h ↦ h
  · exact fun _ _ _ _ h hs hc ↦ ledsOnly_step h hs hc
  · intro es s e t h hs h' hbig
    rw [ledsOnly_snoc_iff h hbig, hs] at h'
    exact (led_ioctl_eq_iff es hbig).mp h' hbig

/-- `LED_OFF` with the argument 4 sets a bit that is no LED. -/
theorem led_off_four : ∃ dat,
    Run (IoctlStep id) 0 [⟨LED_OFF, 4⟩] dat ∧ ¬LedsOnly 0 [⟨LED_OFF, 4⟩] dat := by
  refine ⟨16, .snoc .nil (by unfold IoctlStep; decide), fun h ↦ ?_⟩
  have h4 := h.others 4 (by omega)
  revert h4
  decide

end OK210Drivers.Led
