import OK210Drivers.Buttons.Driver

/-!
# The debounce timer from the loading of the module on

`timer_key` and `buttons_input` both add their timer when the module is loaded, before any interrupt has
set `irq_pd`.  What a process does in the module is cut into the calls between which interrupts and
expirations can come.  Reads and polls of `timer_key` touch neither the timer nor `irq_pd`.
-/

open Library

namespace OK210Drivers.Buttons.ArmedAtInit

open Key (ButtonIrqDesc)

inductive Stmt
  | init_timer
  | add_timer
  | del_timer
  | register_chrdev
  | unregister_chrdev
  | input_register_device
  | input_unregister_device
  | request_irq (b : ButtonIrqDesc)
  | free_irq (b : ButtonIrqDesc)
  | return_0
  deriving DecidableEq

/-- The calls of the module's functions, where it has them, and what the timer makes of a button and
its pin. -/
structure Driver (δ : Type*) where
  module_init : List Stmt
  module_exit : List Stmt
  irq_key_open : Option (List Stmt)
  irq_key_close : Option (List Stmt)
  undo : List Stmt
  report : ButtonIrqDesc → BitVec 32 → δ → δ

def request_irqs (table : List ButtonIrqDesc) : List Stmt := table.map .request_irq

def free_irqs (table : List ButtonIrqDesc) : List Stmt := table.map .free_irq

def timer_key (table : List ButtonIrqDesc) : Driver Key.State where
  module_init := [.init_timer, .add_timer, .register_chrdev, .return_0]
  module_exit := [.unregister_chrdev, .del_timer]
  irq_key_open := some (request_irqs table ++ [.return_0])
  irq_key_close := some (free_irqs table)
  undo := free_irqs table.reverse
  report := Key.key_interrupt

-- The events of the input device, the latest last.
def buttons_input (table : List ButtonIrqDesc) : Driver (List (BitVec 32 × Int)) where
  module_init :=
    [.input_register_device, .init_timer, .add_timer] ++ request_irqs table ++ [.return_0]
  module_exit := free_irqs table ++ [.del_timer, .input_unregister_device]
  irq_key_open := none
  irq_key_close := none
  undo := free_irqs table.reverse
  report b pinval events := events ++ [(b.key_val, if pinval ≠ 0 then 0 else 1)]

inductive Proc
  | insmod
  | client (c : Nat)
  deriving DecidableEq

-- The entry under which each line is registered, what every process still has to call, how often its
-- calls have ended with 0, and whether the kernel has died of a null pointer.
structure State (δ : Type*) where
  registered : Bool
  lines : Nat → Option ButtonIrqDesc
  irq_pd : Option ButtonIrqDesc
  buttons_timer : Bool
  calls : Proc → List Stmt
  holds : Proc → Nat
  oops : Bool
  out : δ

variable {δ : Type*}

/-- The module is being loaded. -/
def State.init (d : Driver δ) (out : δ) : State δ where
  registered := false
  lines := fun _ ↦ none
  irq_pd := none
  buttons_timer := false
  calls := fun p ↦ if p = .insmod then d.module_init else []
  holds := fun _ ↦ 0
  oops := false
  out := out

def State.goto (s : State δ) (p : Proc) (rest : List Stmt) : State δ :=
  { s with calls := Function.update s.calls p rest }

-- Only the last `err` counts: a refused request is undone if no other follows.
def refused (d : Driver δ) (rest : List Stmt) : List Stmt :=
  match rest with
  | .request_irq b :: rest => .request_irq b :: rest
  | _ => d.undo

-- One call; `ok` says whether a call that may fail succeeds.
def exec (d : Driver δ) (p : Proc) (ok : Bool) (rest : List Stmt) (s : State δ) : Stmt → State δ
  | .init_timer => { s.goto p rest with buttons_timer := false }
  | .add_timer => { s.goto p rest with buttons_timer := true }
  | .del_timer => { s.goto p rest with buttons_timer := false }
  | .register_chrdev => { s.goto p rest with registered := ok }
  | .unregister_chrdev => { s.goto p rest with registered := false }
  | .input_register_device => if ok then { s.goto p rest with registered := true } else s.goto p []
  | .input_unregister_device => { s.goto p rest with registered := false }
  | .request_irq b =>
    if ok && (s.lines b.irq).isNone then
      { s.goto p rest with lines := Function.update s.lines b.irq (some b) }
    else s.goto p (refused d rest)
  | .free_irq b =>
    { s.goto p rest with
      lines := if s.lines b.irq = some b then Function.update s.lines b.irq none else s.lines }
  | .return_0 => { s.goto p rest with holds := Function.update s.holds p (s.holds p + 1) }

def key_interrupt (dev_id : ButtonIrqDesc) (s : State δ) : State δ :=
  { s with irq_pd := some dev_id, buttons_timer := true }

-- `gpio_get_value(button_irqs->pin)` needs the button; `pinval` is what it returns.
def buttons_timer_function (d : Driver δ) (pinval : BitVec 32) (s : State δ) : State δ :=
  match s.irq_pd with
  | none => { s with oops := true }
  | some button_irqs => { s with out := d.report button_irqs pinval s.out }

inductive Event
  | exec (p : Proc) (ok : Bool)
  | openKey (c : Nat)
  | closeKey (c : Nat)
  | rmmod
  | interrupt (b : ButtonIrqDesc)
  | expire (pinval : BitVec 32)

/-- The calls of any number of processes, the interrupts of the registered lines and the expirations
of the timer, until the kernel dies. -/
inductive Step (d : Driver δ) : State δ → Event → State δ → Prop
  | exec {s p stmt rest} (ok) : s.oops = false → s.calls p = stmt :: rest →
      Step d s (.exec p ok) (exec d p ok rest s stmt)
  | openKey {s c stmts} : s.oops = false → s.registered = true → s.calls (.client c) = [] →
      d.irq_key_open = some stmts → Step d s (.openKey c) (s.goto (.client c) stmts)
  | closeKey {s c stmts} : s.oops = false → s.calls (.client c) = [] → 0 < s.holds (.client c) →
      d.irq_key_close = some stmts → Step d s (.closeKey c)
        { s.goto (.client c) stmts with
          holds := Function.update s.holds (.client c) (s.holds (.client c) - 1) }
  -- the module can be removed when it is loaded and no file of it is open
  | rmmod {s} : s.oops = false → (∀ p, s.calls p = []) → 0 < s.holds .insmod →
      (∀ c, s.holds (.client c) = 0) → Step d s .rmmod
        { s.goto .insmod d.module_exit with
          holds := Function.update s.holds .insmod (s.holds .insmod - 1) }
  | interrupt {s b} : s.oops = false → s.lines b.irq = some b →
      Step d s (.interrupt b) (key_interrupt b s)
  | expire {s} (pinval) : s.oops = false → s.buttons_timer = true → Step d s (.expire pinval)
      (buttons_timer_function d pinval { s with buttons_timer := false })

/-- When the timer runs out, `irq_pd` is an entry of the table that an interrupt has set. -/
def ButtonSet (table : List ButtonIrqDesc) (es : List Event) (s : State δ) (e : Event) : Prop :=
  ∀ pinval, e = .expire pinval → ∃ b ∈ table, s.irq_pd = some b ∧ .interrupt b ∈ es

/-- The timer does not run out before the first interrupt. -/
def InterruptFirst (es : List Event) (_ : State δ) (e : Event) : Prop :=
  ∀ pinval, e = .expire pinval → ∃ b, .interrupt b ∈ es

/-- The calls request lines for entries of the table only. -/
def Requests (table : List ButtonIrqDesc) (stmts : List Stmt) : Prop :=
  ∀ b, .request_irq b ∈ stmts → b ∈ table

structure Driver.Uses (d : Driver δ) (table : List ButtonIrqDesc) : Prop where
  module_init : Requests table d.module_init
  module_exit : Requests table d.module_exit
  irq_key_open : ∀ stmts, d.irq_key_open = some stmts → Requests table stmts
  irq_key_close : ∀ stmts, d.irq_key_close = some stmts → Requests table stmts
  undo : Requests table d.undo

/-- The lines and the calls are about the table, and `irq_pd` is set by the interrupts. -/
structure Inv (table : List ButtonIrqDesc) (es : List Event) (s : State δ) : Prop where
  lines : ∀ irq b, s.lines irq = some b → b ∈ table
  calls : ∀ p, Requests table (s.calls p)
  unset : s.irq_pd = none → ∀ b, .interrupt b ∉ es
  set : ∀ b, s.irq_pd = some b → b ∈ table ∧ .interrupt b ∈ es

section Calls

variable {table : List ButtonIrqDesc} {d : Driver δ} {rest : List Stmt} {stmt : Stmt}

theorem requests_nil : Requests table [] := by
  intro b hb
  cases hb

theorem requests_append {stmts stmts' : List Stmt} (h : Requests table stmts)
    (h' : Requests table stmts') : Requests table (stmts ++ stmts') := by
  intro b hb
  rcases List.mem_append.mp hb with hb | hb
  · exact h b hb
  · exact h' b hb

theorem requests_request_irqs : Requests table (request_irqs table) := by
  intro b hb
  obtain ⟨a, ha, hab⟩ := List.mem_map.mp hb
  cases hab
  exact ha

theorem requests_free_irqs (bs : List ButtonIrqDesc) : Requests table (free_irqs bs) := by
  intro b hb
  obtain ⟨a, _, hab⟩ := List.mem_map.mp hb
  cases hab

theorem requests_of_all {stmts : List Stmt} (h : ∀ b, .request_irq b ∉ stmts) :
    Requests table stmts :=
  fun b hb ↦ absurd hb (h b)

theorem requests_refused (hd : Requests table d.undo) (h : Requests table rest) :
    Requests table (refused d rest) := by
  unfold refused
  split
  · exact h
  · exact hd

theorem timer_key_uses : (timer_key table).Uses table where
  module_init := requests_of_all (by simp [timer_key])
  module_exit := requests_of_all (by simp [timer_key])
  irq_key_open stmts h := by
    cases h
    exact requests_append requests_request_irqs (requests_of_all (by simp))
  irq_key_close stmts h := by
    cases h
    exact requests_free_irqs table
  undo := requests_free_irqs _

theorem buttons_input_uses : (buttons_input table).Uses table where
  module_init :=
    requests_append (requests_append (requests_of_all (by simp)) requests_request_irqs)
      (requests_of_all (by simp))
  module_exit := requests_append (requests_free_irqs table) (requests_of_all (by simp))
  irq_key_open stmts h := by cases h
  irq_key_close stmts h := by cases h
  undo := requests_free_irqs _

end Calls

section Steps

variable {table : List ButtonIrqDesc} {d : Driver δ} {p : Proc} {ok : Bool} {rest stmts : List Stmt}
  {s t : State δ} {stmt : Stmt} {e : Event} {es : List Event}

theorem exec_irq_pd : (exec d p ok rest s stmt).irq_pd = s.irq_pd := by
  unfold exec
  cases stmt with
  | input_register_device | request_irq b =>
    dsimp only
    split
    · rfl
    · rfl
  | _ => rfl

theorem exec_lines {irq : Nat} {b : ButtonIrqDesc}
    (h : (exec d p ok rest s stmt).lines irq = some b) :
    s.lines irq = some b ∨ stmt = .request_irq b := by
  unfold exec at h
  cases stmt with
  | input_register_device =>
    dsimp only at h
    split at h
    · exact Or.inl h
    · exact Or.inl h
  | request_irq a =>
    dsimp only at h
    split at h
    · have h : Function.update s.lines a.irq (some a) irq = some b := h
      rw [Function.update_apply] at h
      split at h
      · rw [Option.some.inj h]
        exact Or.inr rfl
      · exact Or.inl h
    · exact Or.inl h
  | free_irq a =>
    have h : (if s.lines a.irq = some a then Function.update s.lines a.irq none else s.lines) irq =
      some b := h
    split at h
    · rw [Function.update_apply] at h
      split at h
      · cases h
      · exact Or.inl h
    · exact Or.inl h
  | _ => exact Or.inl h

theorem requests_goto (h : ∀ q, Requests table (s.calls q)) (hstmts : Requests table stmts) (q : Proc) :
    Requests table ((s.goto p stmts).calls q) := by
  show Requests table (Function.update s.calls p stmts q)
  rw [Function.update_apply]
  split
  · exact hstmts
  · exact h q

theorem exec_calls (hd : Requests table d.undo) (h : ∀ q, Requests table (s.calls q))
    (hrest : Requests table rest) (q : Proc) :
    Requests table ((exec d p ok rest s stmt).calls q) := by
  have hgoto := requests_goto (p := p) h hrest q
  unfold exec
  cases stmt with
  | input_register_device =>
    dsimp only
    split
    · exact hgoto
    · exact requests_goto h requests_nil q
  | request_irq b =>
    dsimp only
    split
    · exact hgoto
    · exact requests_goto h (requests_refused hd hrest) q
  | _ => exact hgoto

theorem inv_init (hd : d.Uses table) (out : δ) : Inv table [] (State.init d out) where
  lines irq b h := by cases h
  calls p := by
    show Requests table (if p = .insmod then d.module_init else [])
    split
    · exact hd.module_init
    · exact requests_nil
  unset _ b hb := by cases hb
  set b h := by cases h

-- A step that is no interrupt and leaves `irq_pd` alone.
theorem Inv.of_same (h : Inv table es s) (hnot : ∀ b, e ≠ .interrupt b)
    (hlines : ∀ irq b, t.lines irq = some b → b ∈ table) (hcalls : ∀ q, Requests table (t.calls q))
    (hpd : t.irq_pd = s.irq_pd) : Inv table (es ++ [e]) t where
  lines := hlines
  calls := hcalls
  unset ht b hb := by
    rcases List.mem_append.mp hb with hb | hb
    · exact h.unset (hpd ▸ ht) b hb
    · exact hnot b (List.mem_singleton.mp hb).symm
  set b ht := by
    obtain ⟨hb, hes⟩ := h.set b (hpd ▸ ht)
    exact ⟨hb, List.mem_append_left _ hes⟩

theorem inv_step (hd : d.Uses table) (h : Inv table es s) (hs : Step d s e t) :
    Inv table (es ++ [e]) t := by
  cases hs with
  | @exec p stmt rest ok _ hcalls =>
    have hstmts : Requests table (stmt :: rest) := hcalls ▸ h.calls p
    have hrest : Requests table rest := fun b hb ↦ hstmts b (List.mem_cons_of_mem _ hb)
    refine h.of_same (fun b hb ↦ by cases hb) (fun irq b hb ↦ ?_) (exec_calls hd.undo h.calls hrest)
      exec_irq_pd
    rcases exec_lines hb with hb | rfl
    · exact h.lines irq b hb
    · exact hstmts b (List.mem_cons_self ..)
  | openKey _ _ _ hopen =>
    exact h.of_same (fun b hb ↦ by cases hb) h.lines (requests_goto h.calls (hd.irq_key_open _ hopen))
      rfl
  | closeKey _ _ _ hclose =>
    exact h.of_same (fun b hb ↦ by cases hb) h.lines
      (requests_goto h.calls (hd.irq_key_close _ hclose)) rfl
  | rmmod _ _ _ _ =>
    exact h.of_same (fun b hb ↦ by cases hb) h.lines (requests_goto h.calls hd.module_exit) rfl
  | @interrupt b _ hline =>
    refine ⟨h.lines, h.calls, fun hnone _ _ ↦ ?_, fun c hc ↦ ?_⟩
    · have hnone : some b = none := hnone
      cases hnone
    obtain rfl : b = c := Option.some.inj hc
    exact ⟨h.lines _ _ hline, List.mem_append_right _ (List.mem_singleton_self _)⟩
  | expire pinval _ _ =>
    unfold buttons_timer_function
    split
    · exact h.of_same (fun b hb ↦ by cases hb) h.lines h.calls rfl
    · exact h.of_same (fun b hb ↦ by cases hb) h.lines h.calls rfl

theorem buttonSet_iff (h : Inv table es s) : InterruptFirst es s e ↔ ButtonSet table es s e := by
  constructor
  · intro hfirst pinval he
    obtain ⟨b, hb⟩ := hfirst pinval he
    cases hpd : s.irq_pd with
    | none => exact absurd hb (h.unset hpd b)
    | some a => exact ⟨a, (h.set a hpd).1, rfl, (h.set a hpd).2⟩
  · intro hset pinval he
    obtain ⟨b, _, _, hb⟩ := hset pinval he
    exact ⟨b, hb⟩

theorem guarded_iff (hd : d.Uses table) (out : δ) :
    GuardedRun (Step d) InterruptFirst (State.init d out) es s ↔
      RunWhere (Step d) (fun es s e _ ↦ ButtonSet table es s e) (State.init d out) es s := by
  apply RunWhere.iff_of_invariant (Inv table) (inv_init hd out)
  · exact fun _ _ _ _ hi hs _ ↦ inv_step hd hi hs
  · exact fun _ _ _ _ hi _ ↦ buttonSet_iff hi

end Steps

/-- In both drivers `irq_pd` is an entry of the table, set by an interrupt, whenever the timer runs out,
in just the runs in which the timer does not run out before the first interrupt. -/
theorem buttonSet_runs_iff (table : List ButtonIrqDesc) (out : Key.State)
    (events : List (BitVec 32 × Int)) :
    (∀ es s,
      GuardedRun (Step (timer_key table)) InterruptFirst (State.init (timer_key table) out) es s ↔
        RunWhere (Step (timer_key table)) (fun es s e _ ↦ ButtonSet table es s e)
          (State.init (timer_key table) out) es s) ∧
    ∀ es s,
      GuardedRun (Step (buttons_input table)) InterruptFirst
          (State.init (buttons_input table) events) es s ↔
        RunWhere (Step (buttons_input table)) (fun es s e _ ↦ ButtonSet table es s e)
          (State.init (buttons_input table) events) es s :=
  ⟨fun _ _ ↦ guarded_iff timer_key_uses out, fun _ _ ↦ guarded_iff buttons_input_uses events⟩

/-- The module has been loaded far enough for the timer to be pending, and it runs out. -/
def DiesOfTimer (d : Driver δ) (table : List ButtonIrqDesc) (out : δ) : Prop :=
  ∃ es s t, Run (Step d) (State.init d out) es s ∧ Step d s (.expire 0) t ∧
    ¬ButtonSet table es s (.expire 0) ∧ t.oops = true

/-- The timer may run out as soon as it has been added, and then there is no button. -/
theorem expires_without_button :
    DiesOfTimer (timer_key (Key.button_irqs id id)) (Key.button_irqs id id) Key.State.init ∧
      DiesOfTimer (buttons_input (button_irqs id id id)) (button_irqs id id id) [] := by
  have hnot {δ : Type} {table : List ButtonIrqDesc} {es : List Event} {s : State δ}
      (h : s.irq_pd = none) : ¬ButtonSet table es s (.expire 0) := by
    intro hset
    obtain ⟨b, _, hb, _⟩ := hset 0 rfl
    rw [h] at hb
    cases hb
  constructor
  · let d := timer_key (Key.button_irqs id id)
    have h₁ : Run (Step d) (State.init d Key.State.init) [.exec .insmod true] _ :=
      .snoc .nil (.exec true rfl rfl)
    have h₂ := h₁.snoc (.exec (p := .insmod) true rfl rfl)
    exact ⟨_, _, _, h₂, .expire 0 rfl rfl, hnot rfl, rfl⟩
  · let d := buttons_input (button_irqs id id id)
    have h₁ : Run (Step d) (State.init d []) [.exec .insmod true] _ :=
      .snoc .nil (.exec true rfl rfl)
    have h₂ := h₁.snoc (.exec (p := .insmod) true rfl rfl)
    have h₃ := h₂.snoc (.exec (p := .insmod) true rfl rfl)
    exact ⟨_, _, _, h₃, .expire 0 rfl rfl, hnot rfl, rfl⟩

end OK210Drivers.Buttons.ArmedAtInit
