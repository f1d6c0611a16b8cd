import Mathlib.Data.List.Nodup
import OK210Drivers.Key.Driver

/-!
# Interrupt lines: `irq_key_open` and `irq_key_close`

All the key drivers have these two functions.  The lines are not shared, and the `dev_id` of a
registration is the address of the button's entry, here its index in the table.
-/

open Library

namespace OK210Drivers.Key.Lines

def EBUSY : Int := 16

-- A call that the driver makes and how the kernel answers it.
inductive Call
  | request (irq dev_id : Nat) (err : Int)
  | free (irq dev_id : Nat) (found : Bool)
  deriving DecidableEq

-- The `dev_id` under which each line is registered, and the calls made so far.
structure Irqs where
  lines : Nat → Option Nat
  calls : List Call

-- A registered line is refused; `err` is 0 unless there is some other reason to refuse it.
def request_irq (irq dev_id : Nat) (err : Int) (l : Irqs) : Int × Irqs :=
  if (l.lines irq).isSome then
    (-EBUSY, { l with calls := l.calls ++ [.request irq dev_id (-EBUSY)] })
  else if err ≠ 0 then
    (err, { l with calls := l.calls ++ [.request irq dev_id err] })
  else
    (0, { lines := Function.update l.lines irq (some dev_id),
          calls := l.calls ++ [.request irq dev_id 0] })

-- The kernel warns when the line is not registered under `dev_id`.
def free_irq (irq dev_id : Nat) (l : Irqs) : Irqs :=
  if l.lines irq = some dev_id then
    { lines := Function.update l.lines irq none, calls := l.calls ++ [.free irq dev_id true] }
  else
    { l with calls := l.calls ++ [.free irq dev_id false] }

-- The loop of `irq_key_open`, which goes on after a failure and keeps the last `err` only.
def request_lines (errors : Nat → Int) : List (ButtonIrqDesc × Nat) → Int × Irqs → Int × Irqs
  | [], acc => acc
  | (b, i) :: bs, (_, l) => request_lines errors bs (request_irq b.irq i (errors i) l)

def free_lines : List (ButtonIrqDesc × Nat) → Irqs → Irqs
  | [], l => l
  | (b, i) :: bs, l => free_lines bs (free_irq b.irq i l)

-- `disable_irq`, which the rollback calls before each `free_irq`, leaves the registrations alone.
def irq_key_open (button_irqs : List ButtonIrqDesc) (errors : Nat → Int) (l : Irqs) : Int × Irqs :=
  match request_lines errors button_irqs.zipIdx (0, l) with
  | (err, l') =>
    if err ≠ 0 then (-EBUSY, free_lines button_irqs.zipIdx.reverse l') else (0, l')

def irq_key_close (button_irqs : List ButtonIrqDesc) (l : Irqs) : Int × Irqs :=
  (0, free_lines button_irqs.zipIdx l)

-- The registered lines, and how many handles each client holds whose open returned 0.
structure State where
  lines : Nat → Option Nat
  handles : Nat → Nat

def State.init : State := ⟨fun _ ↦ none, fun _ ↦ 0⟩

/-- An `irq_key_open` with its return value, or an `irq_key_close`, and the calls it made. -/
inductive Event
  | openKey (c : Nat) (errors : Nat → Int) (ret : Int) (calls : List Call)
  | closeKey (c : Nat) (calls : List Call)

def Event.calls : Event → List Call
  | .openKey _ _ _ calls => calls
  | .closeKey _ calls => calls

inductive Step (table : List ButtonIrqDesc) : State → Event → State → Prop
  | openKey {s ret l} (c errors) : irq_key_open table errors ⟨s.lines, []⟩ = (ret, l) →
      Step table s (.openKey c errors ret l.calls)
        { lines := l.lines
          handles :=
            if ret = 0 then Function.update s.handles c (s.handles c + 1) else s.handles }
  | closeKey {s c ret l} : 0 < s.handles c → irq_key_close table ⟨s.lines, []⟩ = (ret, l) →
      Step table s (.closeKey c l.calls)
        { lines := l.lines, handles := Function.update s.handles c (s.handles c - 1) }

section Calls

variable {irq dev_id : Nat} {errors : Nat → Int} {err : Int} {bs cs : List (ButtonIrqDesc × Nat)}
  {l : Irqs} {call : Call}

@[simp] theorem request_lines_nil (acc : Int × Irqs) : request_lines errors [] acc = acc := rfl

@[simp] theorem request_lines_cons (p : ButtonIrqDesc × Nat) (acc : Int × Irqs) :
    request_lines errors (p :: bs) acc =
      request_lines errors bs (request_irq p.1.irq p.2 (errors p.2) acc.2) := rfl

@[simp] theorem free_lines_nil : free_lines [] l = l := rfl

@[simp] theorem free_lines_cons (p : ButtonIrqDesc × Nat) :
    free_lines (p :: bs) l = free_lines bs (free_irq p.1.irq p.2 l) := rfl

theorem request_lines_append (acc : Int × Irqs) :
    request_lines errors (bs ++ cs) acc = request_lines errors cs (request_lines errors bs acc) := by
  induction bs generalizing acc with
  | nil => rfl
  | cons p bs ih => simp only [List.cons_append, request_lines_cons, ih]

-- The request is on record with its answer, and only a granted one changes the lines.
theorem request_irq_cases (irq dev_id : Nat) (err : Int) (l : Irqs) :
    ((l.lines irq).isSome ∨ err ≠ 0) ∧ (request_irq irq dev_id err l).1 ≠ 0 ∧
        (request_irq irq dev_id err l).2.lines = l.lines ∨
      l.lines irq = none ∧ err = 0 ∧ (request_irq irq dev_id err l).1 = 0 ∧
        (request_irq irq dev_id err l).2.lines = Function.update l.lines irq (some dev_id) := by
  unfold request_irq
  by_cases hreg : (l.lines irq).isSome
  · rw [if_pos hreg]
    exact Or.inl ⟨Or.inl hreg, show -EBUSY ≠ 0 by decide, rfl⟩
  · rw [if_neg hreg]
    have hnone : l.lines irq = none := by simpa using hreg
    by_cases herr : err = 0
    · rw [if_neg (by simpa using herr)]
      exact Or.inr ⟨hnone, herr, rfl, rfl⟩
    · rw [if_pos herr]
      exact Or.inl ⟨Or.inr herr, herr, rfl⟩

theorem request_irq_calls (irq dev_id : Nat) (err : Int) (l : Irqs) :
    (request_irq irq dev_id err l).2.calls =
      l.calls ++ [.request irq dev_id (request_irq irq dev_id err l).1] := by
  unfold request_irq
  split
  · rfl
  · split <;> rfl

theorem free_irq_found (h : l.lines irq = some dev_id) : free_irq irq dev_id l =
    ⟨Function.update l.lines irq none, l.calls ++ [.free irq dev_id true]⟩ :=
  if_pos h

theorem free_irq_missed (h : l.lines irq ≠ some dev_id) : free_irq irq dev_id l =
    ⟨l.lines, l.calls ++ [.free irq dev_id false]⟩ :=
  if_neg h

theorem mem_calls_request_lines (acc : Int × Irqs) (h : call ∈ acc.2.calls) :
    call ∈ (request_lines errors bs acc).2.calls := by
  induction bs generalizing acc with
  | nil => exact h
  | cons p bs ih =>
    rw [request_lines_cons]
    apply ih
    rw [request_irq_calls]
    exact List.mem_append_left _ h

theorem mem_calls_free_lines (h : call ∈ l.calls) : call ∈ (free_lines bs l).calls := by
  induction bs generalizing l with
  | nil => exact h
  | cons p bs ih =>
    rw [free_lines_cons]
    apply ih
    by_cases hp : l.lines p.1.irq = some p.2
    · rw [free_irq_found hp]
      exact List.mem_append_left _ h
    · rw [free_irq_missed hp]
      exact List.mem_append_left _ h

end Calls

end OK210Drivers.Key.Lines
