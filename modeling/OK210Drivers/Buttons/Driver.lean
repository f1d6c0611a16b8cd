import Mathlib.Data.List.Basic
import OK210Drivers.Key.Driver

/-!
# The buttons as an input device: `key_interrupt` and `buttons_timer_function`

Every edge of a button's pin runs `key_interrupt`, which notes the button in `irq_pd` and sets the one
timer; when the timer runs out, the button in `irq_pd` is reported.
-/

namespace OK210Drivers.Buttons

open Key (ButtonIrqDesc)

/-- A table of buttons on pins of their own with key codes of their own. -/
structure Table where
  buttons : List ButtonIrqDesc
  pin_inj : ∀ a ∈ buttons, ∀ b ∈ buttons, a.pin = b.pin → a = b
  key_inj : ∀ a ∈ buttons, ∀ b ∈ buttons, a.key_val = b.key_val → a = b

def KEY_A : BitVec 32 := 30
def KEY_B : BitVec 32 := 48
def KEY_C : BitVec 32 := 46
def KEY_L : BitVec 32 := 38
def KEY_S : BitVec 32 := 31
def KEY_ENTER : BitVec 32 := 28
def KEY_LEFTSHIFT : BitVec 32 := 42
def KEY_DELETE : BitVec 32 := 111

-- The platform's `IRQ_EINT`, `S5PV210_GPH2` and `S5PV210_GPH3` number the lines and the pins.
def button_irqs (IRQ_EINT S5PV210_GPH2 S5PV210_GPH3 : Nat → Nat) : List ButtonIrqDesc :=
  [⟨IRQ_EINT 16, S5PV210_GPH2 0, KEY_A⟩,
   ⟨IRQ_EINT 17, S5PV210_GPH2 1, KEY_B⟩,
   ⟨IRQ_EINT 18, S5PV210_GPH2 2, KEY_C⟩,
   ⟨IRQ_EINT 19, S5PV210_GPH2 3, KEY_L⟩,
   ⟨IRQ_EINT 24, S5PV210_GPH3 0, KEY_S⟩,
   ⟨IRQ_EINT 25, S5PV210_GPH3 1, KEY_ENTER⟩,
   ⟨IRQ_EINT 26, S5PV210_GPH3 2, KEY_LEFTSHIFT⟩,
   ⟨IRQ_EINT 27, S5PV210_GPH3 3, KEY_DELETE⟩]

-- The level of each pin (`true` is high), the timer, and the code and value of each `EV_KEY` event,
-- the latest last.
structure State where
  gpio : Nat → Bool
  irq_pd : Option ButtonIrqDesc
  buttons_timer : Bool
  events : List (BitVec 32 × Int)

-- `add_timer` at the end of `buttons_input_init` leaves the timer pending.
def buttons_input_init (gpio : Nat → Bool) : State := ⟨gpio, none, true, []⟩

def key_interrupt (dev_id : ButtonIrqDesc) (s : State) : State :=
  { s with irq_pd := some dev_id, buttons_timer := true }

def input_event (code : BitVec 32) (value : Int) (s : State) : State :=
  { s with events := s.events ++ [(code, value)] }

-- Without a button the pin is read through a null pointer.
def buttons_timer_function (s : State) : Option State :=
  match s.irq_pd with
  | none => none
  | some button_irqs =>
    let pinval := s.gpio button_irqs.pin
    if pinval then some (input_event button_irqs.key_val 0 s)
    else some (input_event button_irqs.key_val 1 s)

inductive Event
  | edge (b : ButtonIrqDesc)
  | expire

inductive Step (table : Table) : State → Event → State → Prop
  | edge {s b} : b ∈ table.buttons → Step table s (.edge b)
      (key_interrupt b { s with gpio := Function.update s.gpio b.pin (!s.gpio b.pin) })
  | expire {s t} : s.buttons_timer = true →
      buttons_timer_function { s with buttons_timer := false } = some t → Step table s .expire t

/-- The value that a key should have while its pin is at a level. -/
def keyValue (level : Bool) : Int := if level then 0 else 1

/-- The last value reported for a key. -/
def lastValue (events : List (BitVec 32 × Int)) (code : BitVec 32) : Option Int :=
  (events.reverse.find? fun p ↦ p.1 = code).map Prod.snd

theorem keyValue_inj {x y : Bool} : keyValue x = keyValue y ↔ x = y := by
  cases x <;> cases y <;> decide

theorem lastValue_append (events : List (BitVec 32 × Int)) (code code' : BitVec 32) (value : Int) :
    lastValue (events ++ [(code, value)]) code' =
      if code = code' then some value else lastValue events code' := by
  unfold lastValue
  rw [List.reverse_append]
  by_cases h : code = code'
  · simp [h]
  · simp [h]

theorem buttons_timer_function_some {s : State} {b : ButtonIrqDesc} (h : s.irq_pd = some b) :
    buttons_timer_function s = some (input_event b.key_val (keyValue (s.gpio b.pin)) s) := by
  unfold buttons_timer_function
  rw [h]
  cases hpin : s.gpio b.pin
  · simp [hpin, keyValue]
  · simp [hpin, keyValue]

end OK210Drivers.Buttons
