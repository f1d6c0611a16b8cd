import OK210Drivers.Buttons.Driver
import OK210Drivers.Library.Runs

/-!
# The USB mouse as a keyboard

The three buttons of a mouse are reported as keys of an input device that is allocated when the mouse
is plugged in.  Events are sent only for buttons that differ from `pre_val`, the first byte of the
report before, and `pre_val` is static: it is still there when the next mouse is plugged in.
-/

open Library

namespace OK210Drivers.Usb

open Buttons (KEY_L KEY_S KEY_ENTER lastValue lastValue_append)

/-- `uk_dev` while it is registered, and the `EV_KEY` events that were sent to each input device. -/
structure State where
  uk_dev : Option Nat
  pre_val : BitVec 8
  events : Nat → List (BitVec 32 × Int)

/-- The module as it has been loaded. -/
def State.init : State := ⟨none, 0, fun _ ↦ []⟩

def bitMask (bit : Nat) : BitVec 8 := 1#8 <<< bit

def input_event (uk_dev : Nat) (code : BitVec 32) (value : Int) (s : State) : State :=
  { s with events := Function.update s.events uk_dev (s.events uk_dev ++ [(code, value)]) }

-- One of the three comparisons of `usbmouse_as_key_irq`.
def report_edge (uk_dev : Nat) (data : BitVec 8) (bit : Nat) (code : BitVec 32) (s : State) : State :=
  if s.pre_val &&& bitMask bit ≠ data &&& bitMask bit then
    input_event uk_dev code (if data &&& bitMask bit ≠ 0#8 then 1 else 0) s
  else s

/-- `usbmouse_as_key_irq(urb)` with `usb_buf[0] = data`. -/
def usbmouse_as_key_irq (uk_dev : Nat) (data : BitVec 8) (s : State) : State :=
  let s := report_edge uk_dev data 0 KEY_L s
  let s := report_edge uk_dev data 1 KEY_S s
  let s := report_edge uk_dev data 2 KEY_ENTER s
  { s with pre_val := data }

/-- `usbmouse_as_key_probe(intf, id)` when `input_allocate_device` returns a device that has seen no
event yet. -/
def usbmouse_as_key_probe (dev : Nat) (s : State) : State :=
  { s with uk_dev := some dev, events := Function.update s.events dev [] }

def usbmouse_as_key_disconnect (s : State) : State := { s with uk_dev := none }

inductive Event
  | probe (dev : Nat)
  | disconnect
  | report (data : BitVec 8)

inductive Step : State → Event → State → Prop
  | probe {s : State} (dev : Nat) : Step s (.probe dev) (usbmouse_as_key_probe dev s)
  | disconnect {s : State} {dev : Nat} : s.uk_dev = some dev →
      Step s .disconnect (usbmouse_as_key_disconnect s)
  | report {s : State} {dev : Nat} (data : BitVec 8) : s.uk_dev = some dev →
      Step s (.report data) (usbmouse_as_key_irq dev data s)

/-- A button: its bit in the first byte of a report and its key. -/
structure MouseButton where
  bit : Nat
  key : BitVec 32
  deriving DecidableEq

def mouse_buttons : List MouseButton := [⟨0, KEY_L⟩, ⟨1, KEY_S⟩, ⟨2, KEY_ENTER⟩]

/-- The value of a key whose button has this bit. -/
def bitValue (b : Bool) : Int := if b then 1 else 0

/-- What an input device shows for a key: the last value sent, or released. -/
def shown (s : State) (dev : Nat) (code : BitVec 32) : Int := (lastValue (s.events dev) code).getD 0

/-- After a report the input device shows each button as the report has it. -/
def InStep (e : Event) (t : State) : Prop :=
  ∀ data, e = .report data → ∀ dev, t.uk_dev = some dev → ∀ b ∈ mouse_buttons,
    shown t dev b.key = bitValue (data.getLsbD b.bit)

/-- A mouse has been plugged in and has sent no report yet. -/
def Fresh (es : List Event) : Prop :=
  Since (fun e ↦ ∃ dev, e = .probe dev) (fun e ↦ ∀ data, e ≠ .report data) es

/-- The first report of a mouse has no button pressed that was pressed in the last report before. -/
def FirstReportClear (es : List Event) (s : State) (e : Event) : Prop :=
  ∀ data, e = .report data → Fresh es → ∀ b ∈ mouse_buttons,
    ¬(s.pre_val.getLsbD b.bit = true ∧ data.getLsbD b.bit = true)

section Report

variable {dev dev' : Nat} {data : BitVec 8} {bit : Nat} {code code' : BitVec 32} {s : State}

theorem and_bitMask (x : BitVec 8) (bit : Nat) :
    x &&& bitMask bit = if x.getLsbD bit then bitMask bit else 0#8 :=
  BitVec.and_twoPow x bit

theorem bitMask_ne_zero (h : bit < 8) : bitMask bit ≠ 0#8 := by
  intro h0
  have hbit : (bitMask bit).getLsbD bit = (0#8).getLsbD bit := by rw [h0]
  simp [bitMask, h] at hbit

theorem bitMask_value (h : bit < 8) :
    (if data &&& bitMask bit ≠ 0#8 then 1 else 0 : Int) = bitValue (data.getLsbD bit) := by
  rw [and_bitMask]
  cases data.getLsbD bit
  · rfl
  · rw [if_pos rfl, if_pos (bitMask_ne_zero h)]
    rfl

theorem and_bitMask_inj (h : bit < 8) (x y : BitVec 8) :
    x &&& bitMask bit = y &&& bitMask bit ↔ x.getLsbD bit = y.getLsbD bit := by
  have hne := bitMask_ne_zero h
  rw [and_bitMask, and_bitMask]
  cases x.getLsbD bit <;> cases y.getLsbD bit <;> simp [hne, hne.symm]

@[simp] theorem report_edge_uk_dev : (report_edge dev data bit code s).uk_dev = s.uk_dev := by
  unfold report_edge
  split <;> rfl

@[simp] theorem report_edge_pre_val : (report_edge dev data bit code s).pre_val = s.pre_val := by
  unfold report_edge
  split <;> rfl

-- An edge is reported for the key of the button and no other.
theorem shown_report_edge (hbit : bit < 8) : shown (report_edge dev data bit code s) dev code' =
    if code = code' ∧ s.pre_val.getLsbD bit ≠ data.getLsbD bit then bitValue (data.getLsbD bit)
    else shown s dev code' := by
  unfold report_edge
  by_cases hb : s.pre_val.getLsbD bit = data.getLsbD bit
  · rw [if_neg (not_not.mpr ((and_bitMask_inj hbit _ _).mpr hb)), if_neg (fun h ↦ h.2 hb)]
  · rw [if_pos (mt (and_bitMask_inj hbit _ _).mp hb), bitMask_value hbit]
    show (lastValue (Function.update s.events dev _ dev) code').getD 0 = _
    rw [Function.update_self, lastValue_append]
    by_cases hc : code = code'
    · rw [if_pos hc, if_pos ⟨hc, hb⟩]
      rfl
    · rw [if_neg hc, if_neg (fun h ↦ hc h.1)]
      rfl

-- A report shows every button as it is, save one that the last report had pressed as well.
theorem shown_irq {b : MouseButton} (hb : b ∈ mouse_buttons) :
    shown (usbmouse_as_key_irq dev data s) dev b.key =
      if s.pre_val.getLsbD b.bit ≠ data.getLsbD b.bit then bitValue (data.getLsbD b.bit)
      else shown s dev b.key := by
  show shown (report_edge dev data 2 KEY_ENTER (report_edge dev data 1 KEY_S
    (report_edge dev data 0 KEY_L s))) dev b.key = _
  rw [shown_report_edge (by decide), shown_report_edge (by decide), shown_report_edge (by decide)]
  simp only [report_edge_pre_val]
  rcases List.mem_cons.mp hb with rfl | hb
  · simp [show KEY_ENTER ≠ KEY_L by decide, show KEY_S ≠ KEY_L by decide]
  · rcases List.mem_cons.mp hb with rfl | hb
    · simp [show KEY_ENTER ≠ KEY_S by decide, show KEY_L ≠ KEY_S by decide]
    · obtain rfl := List.mem_singleton.mp hb
      simp [show KEY_S ≠ KEY_ENTER by decide, show KEY_L ≠ KEY_ENTER by decide]

theorem bitValue_eq_zero {b : Bool} : bitValue b = 0 ↔ b = false := by
  cases b <;> decide

end Report

section Run

variable {es : List Event} {e : Event} {s t : State}

theorem fresh_snoc : Fresh (es ++ [e]) ↔
    (∃ dev, e = .probe dev) ∨ Fresh es ∧ ∀ data, e ≠ .report data :=
  since_snoc

/-- The registered device shows what the last report had, or nothing when its mouse is fresh. -/
def Inv (es : List Event) (s : State) : Prop :=
  ∀ dev, s.uk_dev = some dev → ∀ b ∈ mouse_buttons,
    (Fresh es → shown s dev b.key = 0) ∧
    (¬Fresh es → shown s dev b.key = bitValue (s.pre_val.getLsbD b.bit))

theorem uk_dev_irq {dev : Nat} {data : BitVec 8} :
    (usbmouse_as_key_irq dev data s).uk_dev = s.uk_dev := by
  simp [usbmouse_as_key_irq]

-- What a report makes of the invariant, button by button.
theorem shown_report (h : Inv es s) {dev : Nat} {data : BitVec 8} (hdev : s.uk_dev = some dev)
    {b : MouseButton} (hb : b ∈ mouse_buttons) :
    shown (usbmouse_as_key_irq dev data s) dev b.key = bitValue (data.getLsbD b.bit) ↔
      (Fresh es → ¬(s.pre_val.getLsbD b.bit = true ∧ data.getLsbD b.bit = true)) := by
  rcases h dev hdev b hb with ⟨hfresh, hold⟩
  rw [shown_irq hb]
  by_cases hne : s.pre_val.getLsbD b.bit = data.getLsbD b.bit
  · rw [if_neg (not_not.mpr hne)]
    by_cases hf : Fresh es
    · rw [hfresh hf, eq_comm, bitValue_eq_zero, hne]
      simp [hf]
    · rw [hold hf, hne]
      simp [hf]
  · rw [if_pos hne]
    refine iff_of_true rfl fun _ hboth ↦ hne ?_
    rw [hboth.1, hboth.2]

theorem inv_init : Inv [] State.init := by
  intro dev hdev
  cases hdev

theorem inv_step (h : Inv es s) (hs : Step s e t) (hg : FirstReportClear es s e) :
    Inv (es ++ [e]) t := by
  cases hs with
  | probe dev =>
    intro dev' hdev b _
    obtain rfl : dev = dev' := Option.some.inj hdev
    refine ⟨fun _ ↦ ?_, fun hf ↦ absurd (fresh_snoc.mpr (Or.inl ⟨dev, rfl⟩)) hf⟩
    show (lastValue (Function.update s.events dev [] dev) b.key).getD 0 = 0
    rw [Function.update_self]
    rfl
  | disconnect =>
    intro dev' hdev
    cases hdev
  | @report dev data hdev =>
    intro dev' hdev' b hb
    rw [uk_dev_irq] at hdev'
    obtain rfl : dev = dev' := Option.some.inj (hdev.symm.trans hdev')
    refine ⟨fun hf ↦ ?_, fun _ ↦ ?_⟩
    · rcases fresh_snoc.mp hf with ⟨_, hprobe⟩ | ⟨_, hno⟩
      · cases hprobe
      · exact absurd rfl (hno data)
    · exact (shown_report h hdev hb).mpr fun hf ↦ hg data rfl hf b hb

theorem inStep_step (h : Inv es s) (hs : Step s e t) : FirstReportClear es s e ↔ InStep e t := by
  constructor
  · rintro hg data rfl dev hdev b hb
    cases hs with
    | report _ hdev' =>
      rw [uk_dev_irq] at hdev
      obtain rfl := Option.some.inj (hdev.symm.trans hdev')
      exact (shown_report h hdev hb).mpr fun hf ↦ hg data rfl hf b hb
  · rintro hp data rfl hf b hb
    cases hs with
    | report _ hdev =>
      exact (shown_report h hdev hb).mp (hp data rfl _ (by rwa [uk_dev_irq]) b hb) hf

/-- Every report leaves the input device in step with the mouse exactly in the runs in which the first
report of each mouse has no button pressed that the last report before had pressed. -/
theorem inStep_iff : GuardedRun Step FirstReportClear State.init es s ↔
    RunWhere Step (fun _ _ e t ↦ InStep e t) State.init es s := by
  apply RunWhere.iff_of_invariant Inv inv_init
  · exact fun es s e t hi hs hg ↦ inv_step hi hs hg
  · exact fun es s e t hi hs ↦ inStep_step hi hs

end Run

/-- The left button is held while the mouse is pulled out and another one plugged in: the first report
of the new mouse has it pressed, and the new device never gets to know. -/
theorem press_lost_on_replug :
    ∃ es s t, Run Step State.init es s ∧ Step s (.report 1) t ∧ t.uk_dev = some 1 ∧
      t.events 1 = [] ∧ ¬InStep (.report 1) t := by
  have h₁ : Run Step State.init _ _ := .snoc .nil (.probe 0)
  have h₂ := h₁.snoc (.report 1 rfl)
  have h₃ := h₂.snoc (.disconnect rfl)
  have h₄ := h₃.snoc (.probe 1)
  refine ⟨_, _, _, h₄, .report 1 rfl, rfl, rfl, fun h ↦ ?_⟩
  have hlost := h 1 rfl 1 rfl ⟨0, KEY_L⟩ (by decide)
  revert hlost
  decide

end OK210Drivers.Usb
