import Mathlib.Logic.Function.Basic
import OK210Drivers.Library.Runs

/-!
# The buttons with a bottom half: `4_Tasklet`, `5_work_queue` and `6_my_workqueue`

The statements of `btn_init` and `btn_exit` run one at a time, and between them come interrupts on the
lines requested, the end of the delay of `btn_dwork`, and runs of what is queued.
-/

open Library

namespace OK210Drivers.BottomHalf

inductive Driver
  | tasklet
  | work_queue
  | my_workqueue
  deriving DecidableEq

inductive Item
  | button_tasklet
  | btn_work
  | btn_dwork
  deriving DecidableEq

inductive Workqueue
  | null
  | created
  | destroyed
  deriving DecidableEq

/-- The statements of `btn_init` and `btn_exit`; a line is named by its place in `btn_info`. -/
inductive Stmt
  | request_irq (i : Nat)
  | INIT_WORK
  | INIT_DELAYED_WORK
  | create_workqueue
  | free_irq (i : Nat)
  | destroy_workqueue
  deriving DecidableEq

/-- `ARRAY_SIZE(btn_info)`. -/
def btn_info_size : Nat := 8

def request_irqs : List Stmt := (List.range btn_info_size).map .request_irq

def free_irqs : List Stmt := (List.range btn_info_size).map .free_irq

def btn_init : Driver → List Stmt
  | .tasklet => request_irqs
  | .work_queue => request_irqs ++ [.INIT_WORK, .INIT_DELAYED_WORK]
  | .my_workqueue => request_irqs ++ [.INIT_WORK, .INIT_DELAYED_WORK, .create_workqueue]

def btn_exit : Driver → List Stmt
  | .tasklet => free_irqs
  | .work_queue => free_irqs
  | .my_workqueue => free_irqs ++ [.destroy_workqueue]

/-- What the driver executes from its load to its removal. -/
def Driver.program (d : Driver) : List Stmt := btn_init d ++ btn_exit d

structure State where
  /-- The number of statements executed. -/
  pc : Nat
  registered : Nat → Bool
  initialised : Item → Bool
  btn_wq : Workqueue
  /-- The timer of `btn_dwork` is pending. -/
  timer : Bool
  queued : Item → Bool
  /-- `button_isr` has queued what was not there to be queued, and the kernel has stopped. -/
  bug : Bool

-- `DECLARE_TASKLET` is static.
def start : State where
  pc := 0
  registered := fun _ ↦ false
  initialised := fun item ↦ decide (item = .button_tasklet)
  btn_wq := .null
  timer := false
  queued := fun _ ↦ false
  bug := false

/-- One statement; `ok` is whether `request_irq` or `create_workqueue` succeeds, which the drivers do
not look at.  `destroy_workqueue` runs what is still on the queue, and leaves a timer alone. -/
def Stmt.exec (st : Stmt) (ok : Bool) (s : State) : Option State :=
  match st with
  | .request_irq i => some { s with registered := Function.update s.registered i ok }
  | .INIT_WORK => some { s with initialised := Function.update s.initialised .btn_work true }
  | .INIT_DELAYED_WORK => some { s with initialised := Function.update s.initialised .btn_dwork true }
  | .create_workqueue => some { s with btn_wq := if ok then .created else .null }
  | .free_irq i => some { s with registered := Function.update s.registered i false }
  | .destroy_workqueue =>
    if s.btn_wq = .created then
      some { s with
        btn_wq := .destroyed
        queued := fun item ↦ s.queued item && decide (item = .button_tasklet) }
    else none

def tasklet_schedule (s : State) : Option State :=
  if s.initialised .button_tasklet then
    some { s with queued := Function.update s.queued .button_tasklet true }
  else none

def queue_work (wq : Workqueue) (work : Item) (s : State) : Option State :=
  if wq = .created ∧ s.initialised work then some { s with queued := Function.update s.queued work true }
  else none

-- An item that is pending already is left as it is.
def queue_delayed_work (wq : Workqueue) (s : State) : Option State :=
  if wq = .created ∧ s.initialised .btn_dwork then
    if s.timer ∨ s.queued .btn_dwork then some s else some { s with timer := true }
  else none

-- The kernel's own queue is always there.
def schedule_delayed_work (s : State) : Option State := queue_delayed_work .created s

/-- No result: an item that is not initialised, or a queue that is not there. -/
def button_isr (d : Driver) (s : State) : Option State :=
  match d with
  | .tasklet => tasklet_schedule s
  | .work_queue => schedule_delayed_work s
  | .my_workqueue => do
    let s ← queue_work s.btn_wq .btn_work s
    queue_delayed_work s.btn_wq s

inductive Event
  | stmt (st : Stmt) (ok : Bool)
  | interrupt (i : Nat)
  | expire
  | run (item : Item)
  deriving DecidableEq

def step (d : Driver) (s : State) (e : Event) : Option State :=
  if s.bug then none
  else
    match e with
    | .stmt st ok =>
      if d.program[s.pc]? = some st then (st.exec ok s).map fun t ↦ { t with pc := s.pc + 1 } else none
    | .interrupt i =>
      if s.registered i then some ((button_isr d s).getD { s with bug := true }) else none
    | .expire =>
      if s.timer ∧ s.btn_wq ≠ .destroyed then
        some { s with timer := false, queued := Function.update s.queued .btn_dwork true }
      else none
    | .run item =>
      if s.queued item then some { s with queued := Function.update s.queued item false } else none

def Step (d : Driver) (s : State) (e : Event) (t : State) : Prop := step d s e = some t

end OK210Drivers.BottomHalf
