import OK210Drivers.Library.Runs

/-!
# The LED as a platform device

`led_dev.c` describes the LED and `led_drv.c` drives it.  The bus calls `led_probe` as soon as both modules
are loaded and `led_remove` when one of them goes.  An open file holds the module of the driver, but not
that of the device.  What `led_probe` calls is taken to succeed.
-/

open Library

namespace OK210Drivers.Led.Platform

-- `_IO('L', nr)`
def io (nr : BitVec 32) : BitVec 32 := 0x4c00 ||| nr

def LED_ON : BitVec 32 := io 0
def LED_OFF : BitVec 32 := io 1

-- `led_res[1].start`
def pin : Nat := 1

/-- What `led_probe` takes: the device number, the cdev, the class, the node and the mapping. -/
structure Held where
  region : Bool
  cdev : Bool
  cls : Bool
  node : Bool
  gpio_base : Bool
  deriving DecidableEq

def Held.all (b : Bool) : Held := ⟨b, b, b, b, b⟩

inductive Module
  | led_dev
  | led_drv
  deriving DecidableEq

/-- The two registers of the LED, what the driver holds, which modules are loaded and how many files are
open on the node. -/
structure State where
  gpiocon : BitVec 32
  gpiodata : BitVec 32
  held : Held
  loaded : Module → Bool
  files : Nat

def State.boot (con data : BitVec 32) : State := ⟨con, data, .all false, fun _ ↦ false, 0⟩

/-- The pin is made an output, and the output 0. -/
def led_probe (s : State) : State :=
  let con := s.gpiocon &&& ~~~(0xf#32 <<< (pin * 4))
  { s with
    gpiocon := con ||| (1#32 <<< (pin * 4))
    gpiodata := s.gpiodata &&& ~~~(1#32 <<< pin)
    held := .all true }

def led_remove (s : State) : State := { s with held := .all false }

/-- What `led_ioctl` returns, unless it meets an address that is not mapped any more. -/
def led_ioctl (cmd : BitVec 32) (s : State) : Option Int × State :=
  if cmd = LED_ON then
    if s.held.gpio_base then (some 0, { s with gpiodata := s.gpiodata ||| (1#32 <<< pin) }) else (none, s)
  else if cmd = LED_OFF then
    if s.held.gpio_base then (some 0, { s with gpiodata := s.gpiodata &&& ~~~(1#32 <<< pin) })
    else (none, s)
  else (some (-1), s)

def Module.other : Module → Module
  | led_dev => led_drv
  | led_drv => led_dev

def State.load (s : State) (m : Module) (b : Bool) : State :=
  { s with loaded := fun n ↦ if n = m then b else s.loaded n }

inductive Event
  | insmod (m : Module) (probed : Bool)
  | rmmod (m : Module) (removed : Bool)
  | open_node
  | close
  | ioctl (cmd : BitVec 32) (ret : Option Int)
  deriving DecidableEq

inductive Step : State → Event → State → Prop
  | insmod {s} (m : Module) : s.loaded m = false →
      Step s (.insmod m (s.loaded m.other))
        (if s.loaded m.other then led_probe (s.load m true) else s.load m true)
  -- `.owner = THIS_MODULE`
  | rmmod {s} (m : Module) : s.loaded m = true → (m = .led_drv → s.files = 0) →
      Step s (.rmmod m (s.loaded m.other))
        (if s.loaded m.other then led_remove (s.load m false) else s.load m false)
  | open_node {s} : s.held.node = true → s.held.cdev = true →
      Step s .open_node { s with files := s.files + 1 }
  | close {s} : 0 < s.files → Step s .close { s with files := s.files - 1 }
  | ioctl {s} (cmd : BitVec 32) : 0 < s.files →
      Step s (.ioctl cmd (led_ioctl cmd s).1) (led_ioctl cmd s).2

/-- The level to which an event drives the pin. -/
def Event.drives : Event → Option Bool
  | .insmod _ true => some false
  | .ioctl cmd (some _) => if cmd = LED_ON then some true else if cmd = LED_OFF then some false else none
  | _ => none

def Event.probes : Event → Bool
  | .insmod _ probed => probed
  | _ => false

/-- The device has gone and has not been probed since. -/
def Gone (es : List Event) : Prop := Since (· = .rmmod .led_dev true) (fun e ↦ e.probes = false) es

def State.bound (s : State) : Bool := s.loaded .led_dev && s.loaded .led_drv

/-- The driver holds everything while both modules are loaded and nothing else.  The pin is an output from
the first probe on and has the level that it was last given; the other pins are as they were. -/
structure Follows (con data : BitVec 32) (es : List Event) (s : State) : Prop where
  held : s.held = .all s.bound
  files : 0 < s.files → s.loaded .led_drv = true
  con : ∀ i < 32, s.gpiocon.getLsbD i =
    if es.any Event.probes = true ∧ 4 ≤ i ∧ i < 8 then decide (i = 4) else con.getLsbD i
  data : ∀ i < 32, s.gpiodata.getLsbD i =
    if i = pin then (lastSome Event.drives es).getD (data.getLsbD pin) else data.getLsbD i
  here : s.bound = true → ¬Gone es
  gone : 0 < s.files → s.loaded .led_dev = false → Gone es

section Registers

variable {w : BitVec 32} {i : Nat}

theorem getLsbD_con (hi : i < 32) : ((w &&& ~~~(0xf#32 <<< (pin * 4))) ||| (1#32 <<< (pin * 4))).getLsbD i =
    if 4 ≤ i ∧ i < 8 then decide (i = 4) else w.getLsbD i := by
  have hmask : ∀ i < 32, (0xf#32 <<< (pin * 4)).getLsbD i = decide (4 ≤ i ∧ i < 8) := by decide
  have hone : ∀ i < 32, (1#32 <<< (pin * 4)).getLsbD i = decide (i = 4) := by decide
  rw [BitVec.getLsbD_or, BitVec.getLsbD_and, BitVec.getLsbD_not, hmask i hi, hone i hi, decide_eq_true hi]
  by_cases h : 4 ≤ i ∧ i < 8
  · rw [if_pos h, decide_eq_true h]
    simp
  · have hne : i ≠ 4 := by omega
    rw [if_neg h, decide_eq_false h, decide_eq_false hne]
    simp

theorem getLsbD_pin (hi : i < 32) : (1#32 <<< pin).getLsbD i = decide (i = pin) := by
  revert i
  decide

theorem getLsbD_on (hi : i < 32) :
    (w ||| (1#32 <<< pin)).getLsbD i = if i = pin then true else w.getLsbD i := by
  rw [BitVec.getLsbD_or, getLsbD_pin hi]
  by_cases h : i = pin
  · rw [if_pos h, decide_eq_true h, Bool.or_true]
  · rw [if_neg h, decide_eq_false h, Bool.or_false]

theorem getLsbD_off (hi : i < 32) :
    (w &&& ~~~(1#32 <<< pin)).getLsbD i = if i = pin then false else w.getLsbD i := by
  rw [BitVec.getLsbD_and, BitVec.getLsbD_not, getLsbD_pin hi, decide_eq_true hi]
  by_cases h : i = pin
  · rw [if_pos h, decide_eq_true h]
    simp
  · rw [if_neg h, decide_eq_false h]
    simp

end Registers

theorem LED_ON_ne_LED_OFF : LED_ON ≠ LED_OFF := by decide

/-- What `led_ioctl` does with the pin, and that it touches nothing else. -/
theorem led_ioctl_cases (cmd : BitVec 32) (s : State) :
    (∃ level, (led_ioctl cmd s).1 = some 0 ∧ s.held.gpio_base = true ∧
      Event.drives (.ioctl cmd (some 0)) = some level ∧
      ∃ data, (led_ioctl cmd s).2 = { s with gpiodata := data } ∧
        ∀ i < 32, data.getLsbD i = if i = pin then level else s.gpiodata.getLsbD i) ∨
    ((led_ioctl cmd s).2 = s ∧ Event.drives (.ioctl cmd (led_ioctl cmd s).1) = none ∧
      ((led_ioctl cmd s).1 = none ↔ (cmd = LED_ON ∨ cmd = LED_OFF) ∧ s.held.gpio_base = false) ∧
      (s.held.gpio_base = true → cmd ≠ LED_ON ∧ cmd ≠ LED_OFF)) := by
  unfold led_ioctl
  by_cases hon : cmd = LED_ON
  · rw [if_pos hon]
    cases hbase : s.held.gpio_base with
    | true => exact Or.inl ⟨true, rfl, rfl, if_pos hon, _, rfl, fun i hi ↦ getLsbD_on hi⟩
    | false => exact Or.inr ⟨rfl, rfl, iff_of_true rfl ⟨Or.inl hon, rfl⟩, nofun⟩
  · rw [if_neg hon]
    by_cases hoff : cmd = LED_OFF
    · rw [if_pos hoff]
      cases hbase : s.held.gpio_base with
      | true =>
        refine Or.inl ⟨false, rfl, rfl, ?_, _, rfl, fun i hi ↦ getLsbD_off hi⟩
        rw [Event.drives, if_neg hon, if_pos hoff]
      | false => exact Or.inr ⟨rfl, rfl, iff_of_true rfl ⟨Or.inr hoff, rfl⟩, nofun⟩
    · rw [if_neg hoff]
      refine Or.inr ⟨rfl, ?_, iff_of_false nofun ?_, fun _ ↦ ⟨hon, hoff⟩⟩
      · show (if cmd = LED_ON then some true else if cmd = LED_OFF then some false else none) = none
        rw [if_neg hon, if_neg hoff]
      · rintro ⟨heq | heq, _⟩
        · exact hon heq
        · exact hoff heq

section Steps

variable {con data : BitVec 32} {es : List Event} {e : Event} {s s' : State}

/-- The registers after an event that makes the pin an output if it probes, and sets it to the level to
which it drives it. -/
theorem Follows.regs (h : Follows con data es s)
    (hcon : ∀ i < 32, s'.gpiocon.getLsbD i =
      if e.probes = true ∧ 4 ≤ i ∧ i < 8 then decide (i = 4) else s.gpiocon.getLsbD i)
    (hdata : ∀ i < 32, s'.gpiodata.getLsbD i =
      if i = pin then e.drives.getD (s.gpiodata.getLsbD i) else s.gpiodata.getLsbD i) :
    (∀ i < 32, s'.gpiocon.getLsbD i =
      if (es ++ [e]).any Event.probes = true ∧ 4 ≤ i ∧ i < 8 then decide (i = 4) else con.getLsbD i) ∧
    ∀ i < 32, s'.gpiodata.getLsbD i =
      if i = pin then (lastSome Event.drives (es ++ [e])).getD (data.getLsbD pin) else data.getLsbD i := by
  constructor
  · intro i hi
    rw [hcon i hi, h.con i hi, List.any_append, List.any_cons, List.any_nil, Bool.or_false]
    cases e.probes
    · rw [Bool.or_false, if_neg fun hno ↦ absurd hno.1 nofun]
    · rw [Bool.or_true]
      by_cases hin : 4 ≤ i ∧ i < 8
      · rw [if_pos ⟨rfl, hin⟩, if_pos ⟨rfl, hin⟩]
      · rw [if_neg fun hyes ↦ hin hyes.2, if_neg fun hyes ↦ hin hyes.2, if_neg fun hyes ↦ hin hyes.2]
  · intro i hi
    rw [hdata i hi, h.data i hi, lastSome_snoc]
    by_cases hpin : i = pin
    · rw [if_pos hpin, if_pos hpin, if_pos hpin]
      cases e.drives with
      | none => rfl
      | some level => rfl
    · rw [if_neg hpin, if_neg hpin, if_neg hpin]

theorem gone_snoc : Gone (es ++ [e]) ↔ e = .rmmod .led_dev true ∨ Gone es ∧ e.probes = false := since_snoc

/-- An event that leaves the registers alone. -/
theorem Follows.quiet (h : Follows con data es s) (hprobes : e.probes = false) (hdrives : e.drives = none)
    (hcon : s'.gpiocon = s.gpiocon) (hdata : s'.gpiodata = s.gpiodata) :
    (∀ i < 32, s'.gpiocon.getLsbD i =
      if (es ++ [e]).any Event.probes = true ∧ 4 ≤ i ∧ i < 8 then decide (i = 4) else con.getLsbD i) ∧
    ∀ i < 32, s'.gpiodata.getLsbD i =
      if i = pin then (lastSome Event.drives (es ++ [e])).getD (data.getLsbD pin) else data.getLsbD i := by
  apply h.regs
  · intro i _
    rw [hcon, hprobes, if_neg fun hno ↦ absurd hno.1 nofun]
  · intro i _
    rw [hdata, hdrives, Option.getD_none, ite_self]

theorem bound_load (s : State) (m : Module) (b : Bool) :
    (s.load m b).bound = (b && s.loaded m.other) := by
  cases m with
  | led_dev => rfl
  | led_drv => exact Bool.and_comm _ _

/-- The first module makes no difference, and the second one brings the probe. -/
theorem Follows.insmod (h : Follows con data es s) {m : Module} (hm : s.loaded m = false) :
    Follows con data (es ++ [.insmod m (s.loaded m.other)])
      (if s.loaded m.other = true then led_probe (s.load m true) else s.load m true) := by
  cases hother : s.loaded m.other with
  | true =>
    have hbound : (s.load m true).bound = true := by rw [bound_load, hother]; rfl
    obtain ⟨hdev, hdrv⟩ := Bool.and_eq_true_iff.mp hbound
    rw [if_pos rfl]
    obtain ⟨hcon, hdata⟩ := @Follows.regs _ _ _ (.insmod m true) _ (led_probe (s.load m true)) h
      (fun i hi ↦ (getLsbD_con hi).trans (by simp [Event.probes, State.load])) fun i hi ↦ getLsbD_off hi
    refine ⟨?_, fun _ ↦ hdrv, hcon, hdata, fun _ hgone ↦ ?_, fun _ hno ↦ ?_⟩
    · show Held.all true = .all (s.load m true).bound
      rw [hbound]
    · rcases gone_snoc.mp hgone with heq | ⟨_, hno⟩
      · cases heq
      · cases hno
    · have hno : (s.load m true).loaded .led_dev = false := hno
      rw [hdev] at hno
      cases hno
  | false =>
    have hbound : (s.load m true).bound = false := by rw [bound_load, hother]; rfl
    have hbefore : s.bound = false := by
      cases m with
      | led_dev => exact Bool.and_eq_false_iff.mpr (Or.inl hm)
      | led_drv => exact Bool.and_eq_false_iff.mpr (Or.inr hm)
    have hfiles : ¬0 < s.files := by
      intro hpos
      have hdrv := h.files hpos
      cases m with
      | led_dev =>
        rw [show s.loaded .led_drv = false from hother] at hdrv
        cases hdrv
      | led_drv =>
        rw [hm] at hdrv
        cases hdrv
    rw [if_neg nofun]
    obtain ⟨hcon, hdata⟩ := @Follows.quiet _ _ _ (.insmod m false) _ (s.load m true) h rfl rfl rfl rfl
    refine ⟨?_, fun hpos ↦ absurd hpos hfiles, hcon, hdata, fun hyes ↦ ?_, fun hpos ↦ absurd hpos hfiles⟩
    · rw [hbound, ← hbefore]
      exact h.held
    · rw [hbound] at hyes
      cases hyes

/-- The device may go while files are open, the driver may not. -/
theorem Follows.rmmod (h : Follows con data es s) {m : Module} (hm : s.loaded m = true)
    (hfiles : m = .led_drv → s.files = 0) :
    Follows con data (es ++ [.rmmod m (s.loaded m.other)])
      (if s.loaded m.other = true then led_remove (s.load m false) else s.load m false) := by
  have hbound : (s.load m false).bound = false := by rw [bound_load]; rfl
  have hdev : 0 < s.files → m = .led_dev := by
    intro hpos
    cases m with
    | led_dev => rfl
    | led_drv => exact absurd (hfiles rfl) (Nat.pos_iff_ne_zero.mp hpos)
  cases hother : s.loaded m.other with
  | true =>
    rw [if_pos rfl]
    obtain ⟨hcon, hdata⟩ :=
      @Follows.quiet _ _ _ (.rmmod m true) _ (led_remove (s.load m false)) h rfl rfl rfl rfl
    refine ⟨?_, fun hpos ↦ ?_, hcon, hdata, fun hyes ↦ ?_, fun hpos _ ↦ ?_⟩
    · show Held.all false = .all (s.load m false).bound
      rw [hbound]
    · obtain rfl := hdev hpos
      exact hother
    · have hyes : (s.load m false).bound = true := hyes
      rw [hbound] at hyes
      cases hyes
    · obtain rfl := hdev hpos
      exact gone_snoc.mpr (Or.inl rfl)
  | false =>
    have hbefore : s.bound = false := by
      cases m with
      | led_dev => exact Bool.and_eq_false_iff.mpr (Or.inr hother)
      | led_drv => exact Bool.and_eq_false_iff.mpr (Or.inl hother)
    have hnone : ¬0 < s.files := by
      intro hpos
      have hdrv := h.files hpos
      obtain rfl := hdev hpos
      rw [show s.loaded .led_drv = false from hother] at hdrv
      cases hdrv
    rw [if_neg nofun]
    obtain ⟨hcon, hdata⟩ := @Follows.quiet _ _ _ (.rmmod m false) _ (s.load m false) h rfl rfl rfl rfl
    refine ⟨?_, fun hpos ↦ absurd hpos hnone, hcon, hdata, fun hyes ↦ ?_, fun hpos ↦ absurd hpos hnone⟩
    · rw [hbound, ← hbefore]
      exact h.held
    · rw [hbound] at hyes
      cases hyes

/-- An event of the files that does nothing but change their number. -/
theorem Follows.file (h : Follows con data es s) (hprobes : e.probes = false) (hdrives : e.drives = none)
    (hrmmod : e ≠ .rmmod .led_dev true) {n : Nat} (hn : 0 < n → 0 < s.files ∨ s.bound = true) :
    Follows con data (es ++ [e]) { s with files := n } := by
  obtain ⟨hcon, hdata⟩ := @Follows.quiet _ _ _ e _ { s with files := n } h hprobes hdrives rfl rfl
  refine ⟨h.held, fun hpos ↦ ?_, hcon, hdata, fun hyes hgone ↦ ?_, fun hpos hno ↦ ?_⟩
  · rcases hn hpos with hpos | hbound
    · exact h.files hpos
    · exact (Bool.and_eq_true_iff.mp hbound).2
  · rcases gone_snoc.mp hgone with heq | ⟨hgone, _⟩
    · exact hrmmod heq
    · exact h.here hyes hgone
  · rcases hn hpos with hpos | hbound
    · exact gone_snoc.mpr (Or.inr ⟨h.gone hpos hno, hprobes⟩)
    · have hno : s.loaded .led_dev = false := hno
      rw [(Bool.and_eq_true_iff.mp hbound).1] at hno
      cases hno

theorem Follows.ioctl (h : Follows con data es s) (cmd : BitVec 32) :
    Follows con data (es ++ [.ioctl cmd (led_ioctl cmd s).1]) (led_ioctl cmd s).2 := by
  rcases led_ioctl_cases cmd s with ⟨level, hret, _, hdrives, d, heq, hd⟩ | ⟨heq, hdrives, _⟩
  · rw [hret, heq]
    obtain ⟨hcon, hdata⟩ := @Follows.regs _ _ _ (.ioctl cmd (some 0)) _ { s with gpiodata := d } h
      (fun i _ ↦ (if_neg fun hno ↦ absurd hno.1 nofun).symm) fun i hi ↦ by rw [hdrives]; exact hd i hi
    refine ⟨h.held, h.files, hcon, hdata, fun hyes hgone ↦ ?_, fun hpos hno ↦ ?_⟩
    · rcases gone_snoc.mp hgone with heq | ⟨hgone, _⟩
      · cases heq
      · exact h.here hyes hgone
    · exact gone_snoc.mpr (Or.inr ⟨h.gone hpos hno, rfl⟩)
  · rw [heq]
    exact h.file rfl hdrives nofun Or.inl

theorem follows_boot : Follows con data [] (.boot con data) where
  held := rfl
  files := nofun
  con i _ := by rw [if_neg fun hno ↦ absurd hno.1 nofun]; rfl
  data i _ := by
    by_cases hpin : i = pin
    · rw [if_pos hpin, hpin]
      rfl
    · rw [if_neg hpin]
      rfl
  here := nofun
  gone := nofun

theorem follows_step (h : Follows con data es s) (hst : Step s e s') : Follows con data (es ++ [e]) s' := by
  cases hst with
  | insmod m hm => exact h.insmod hm
  | rmmod m hm hfiles => exact h.rmmod hm hfiles
  | open_node hnode =>
    have hbound : s.bound = true := by
      rw [h.held] at hnode
      exact hnode
    exact @Follows.file _ _ _ .open_node _ h rfl rfl nofun _ fun _ ↦ Or.inr hbound
  | close hpos => exact @Follows.file _ _ _ .close _ h rfl rfl nofun _ fun _ ↦ Or.inl hpos
  | ioctl cmd => exact h.ioctl cmd

/-- A command meets an unmapped address when the device has gone. -/
theorem ioctl_fails_iff (h : Follows con data es s) (hpos : 0 < s.files) (cmd : BitVec 32) :
    (led_ioctl cmd s).1 = none ↔ (cmd = LED_ON ∨ cmd = LED_OFF) ∧ Gone es := by
  have hbase : s.held.gpio_base = s.bound := by rw [h.held]; rfl
  have hgone : s.held.gpio_base = false ↔ Gone es := by
    rw [hbase]
    constructor
    · intro hno
      refine h.gone hpos ?_
      rcases Bool.and_eq_false_iff.mp hno with hno | hno
      · exact hno
      · rw [h.files hpos] at hno
        cases hno
    · intro hyes
      by_contra hbound
      exact h.here (Bool.not_eq_false _ ▸ hbound) hyes
  rcases led_ioctl_cases cmd s with ⟨level, hret, hyes, _⟩ | ⟨_, _, hnone, _⟩
  · rw [hret]
    refine iff_of_false nofun fun hno ↦ ?_
    rw [hgone.mpr hno.2] at hyes
    cases hyes
  · rw [hnone, hgone]

end Steps

/-- In any order of loading and unloading the two modules and using the node, the driver holds all that
`led_probe` takes exactly while both modules are loaded; the pin is an output from the first probe on, and
it has the level that the probes and the commands since have given it last; no other pin is touched.  A
command meets an unmapped address exactly when the module of the device has been unloaded under an open
file and not been loaded again. -/
theorem platform_led {con data : BitVec 32} {es : List Event} {s : State}
    (h : Run Step (.boot con data) es s) :
    s.held = .all s.bound ∧
      (∀ i < 32, s.gpiocon.getLsbD i =
        if es.any Event.probes = true ∧ 4 ≤ i ∧ i < 8 then decide (i = 4) else con.getLsbD i) ∧
      (∀ i < 32, s.gpiodata.getLsbD i =
        if i = pin then (lastSome Event.drives es).getD (data.getLsbD pin) else data.getLsbD i) ∧
      Always (fun pre e ↦ ∀ cmd ret, e = .ioctl cmd ret →
        (ret = none ↔ (cmd = LED_ON ∨ cmd = LED_OFF) ∧ Gone pre)) es := by
  have hinv : Follows con data es s ∧ Always (fun pre e ↦ ∀ cmd ret, e = .ioctl cmd ret →
      (ret = none ↔ (cmd = LED_ON ∨ cmd = LED_OFF) ∧ Gone pre)) es := by
    apply h.invariant (fun es s ↦ Follows con data es s ∧ Always (fun pre e ↦ ∀ cmd ret,
      e = .ioctl cmd ret → (ret = none ↔ (cmd = LED_ON ∨ cmd = LED_OFF) ∧ Gone pre)) es)
    · exact ⟨follows_boot, always_nil⟩
    · rintro es s e s' _ ⟨hi, hlog⟩ hst
      refine ⟨follows_step hi hst, always_snoc.mpr ⟨hlog, ?_⟩⟩
      rintro cmd ret rfl
      cases hst with
      | ioctl _ hpos => exact ioctl_fails_iff hi hpos cmd
  exact ⟨hinv.1.held, hinv.1.con, hinv.1.data, hinv.2⟩

-- The device is unloaded under an open file, and the next command meets an unmapped address.
theorem platform_led_unloaded :
    ∃ s, Run Step (.boot 0 0) [.insmod .led_dev false, .insmod .led_drv true, .open_node,
        .ioctl LED_ON (some 0), .rmmod .led_dev true, .ioctl LED_ON none] s ∧
      Gone [.insmod .led_dev false, .insmod .led_drv true, .open_node, .ioctl LED_ON (some 0),
        .rmmod .led_dev true] ∧
      s.held = .all s.bound ∧ s.gpiodata.getLsbD pin = true := by
  have hopen : Run Step (.boot 0 0) [.insmod .led_dev false, .insmod .led_drv true, .open_node] _ :=
    .snoc (.snoc (.snoc .nil (.insmod .led_dev rfl)) (.insmod .led_drv rfl)) (.open_node rfl rfl)
  have hgone := (hopen.snoc (.ioctl LED_ON (by decide))).snoc (.rmmod .led_dev rfl nofun)
  have hrun := hgone.snoc (.ioctl LED_ON (by decide))
  obtain ⟨hheld, _, hdata, hlog⟩ := platform_led hrun
  exact ⟨_, hrun, (((hlog _ _ [] rfl) LED_ON _ rfl).mp rfl).2, hheld, hdata pin (by decide)⟩

end OK210Drivers.Led.Platform
