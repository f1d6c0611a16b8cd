import Mathlib.Logic.Function.Basic
import OK210Drivers.Library.Runs

/-!
# The key drivers: `key_interrupt`, `irq_key_read`, `irq_key_poll`

The three drivers `irq_key`, `poll_key` and `fasync_key` share these functions.  The interrupt may come
between any two statements of a read, so a read is cut into the steps between which it can come.
-/

namespace OK210Drivers.Key

-- `struct button_irq_desc`, less the name under which the line is requested.
structure ButtonIrqDesc where
  irq : Nat
  pin : Nat
  key_val : BitVec 32
  deriving DecidableEq

-- The platform's `IRQ_EINT` and `S5PV210_GPH0` number the lines and the pins.
def button_irqs (IRQ_EINT S5PV210_GPH0 : Nat → Nat) : List ButtonIrqDesc :=
  [⟨IRQ_EINT 0, S5PV210_GPH0 0, 0x01⟩,
   ⟨IRQ_EINT 1, S5PV210_GPH0 1, 0x02⟩,
   ⟨IRQ_EINT 2, S5PV210_GPH0 2, 0x03⟩,
   ⟨IRQ_EINT 3, S5PV210_GPH0 3, 0x04⟩,
   ⟨IRQ_EINT 4, S5PV210_GPH0 4, 0x05⟩,
   ⟨IRQ_EINT 5, S5PV210_GPH0 5, 0x06⟩,
   ⟨IRQ_EINT 6, S5PV210_GPH0 6, 0x07⟩,
   ⟨IRQ_EINT 7, S5PV210_GPH0 7, 0x08⟩]

-- Where a reader is in `irq_key_read`.
inductive Pc
  | idle
  | waiting
  | copying
  | clearing
  deriving DecidableEq

structure State where
  key_val : BitVec 8
  ev_press : Int
  readers : Nat → Pc

def State.init : State := ⟨0, 0, fun _ ↦ .idle⟩

def State.goto (s : State) (r : Nat) (pc : Pc) : State :=
  { s with readers := Function.update s.readers r pc }

@[simp] theorem State.goto_same (s : State) (r : Nat) (pc : Pc) : (s.goto r pc).readers r = pc :=
  Function.update_self ..

theorem State.goto_of_ne (s : State) {q r : Nat} (pc : Pc) (h : r ≠ q) :
    (s.goto q pc).readers r = s.readers r :=
  Function.update_of_ne h ..

-- `pinval` is what `gpio_get_value` returns for the pin of the button.
def key_interrupt (button_irqs : ButtonIrqDesc) (pinval : BitVec 32) (s : State) : State :=
  { s with
    key_val :=
      if pinval ≠ 0 then (0x80 ||| button_irqs.key_val).setWidth 8
      else button_irqs.key_val.setWidth 8
    ev_press := 1 }

def POLLIN : BitVec 32 := 0x0001
def POLLRDNORM : BitVec 32 := 0x0040

def irq_key_poll (s : State) : BitVec 32 :=
  if s.ev_press ≠ 0 then 0 ||| (POLLIN ||| POLLRDNORM) else 0

inductive Event
  | interrupt (button_irqs : ButtonIrqDesc) (pinval : BitVec 32)
  | einval (r count : Nat)
  | call (r : Nat)
  | wake (r : Nat)
  | signal (r : Nat)
  | copy (r : Nat) (v : BitVec 8)
  | fault (r : Nat)
  | clear (r : Nat)

/-- Interrupts of the buttons of a table and the steps of any number of readers. -/
inductive Step (table : List ButtonIrqDesc) : State → Event → State → Prop
  | interrupt {s b} (pinval) : b ∈ table →
      Step table s (.interrupt b pinval) (key_interrupt b pinval s)
  -- `count != 1`
  | einval {s r count} : s.readers r = .idle → count ≠ 1 → Step table s (.einval r count) s
  | call {s r} : s.readers r = .idle → Step table s (.call r) (s.goto r .waiting)
  -- `wait_event_interruptible` returns because its condition holds
  | wake {s r} : s.readers r = .waiting → s.ev_press ≠ 0 →
      Step table s (.wake r) (s.goto r .copying)
  -- or because of a signal, which `irq_key_read` does not look at
  | signal {s r} : s.readers r = .waiting → Step table s (.signal r) (s.goto r .copying)
  | copy {s r} : s.readers r = .copying → Step table s (.copy r s.key_val) (s.goto r .clearing)
  -- `copy_to_user` fails, which `irq_key_read` does not look at either
  | fault {s r} : s.readers r = .copying → Step table s (.fault r) (s.goto r .clearing)
  -- `ev_press = 0; return 1;`
  | clear {s r} : s.readers r = .clearing →
      Step table s (.clear r) { s.goto r .idle with ev_press := 0 }

end OK210Drivers.Key
