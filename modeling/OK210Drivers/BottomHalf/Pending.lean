import OK210Drivers.BottomHalf.Driver

/-!
# When deferred work stays between init and exit

The lines are requested before the items and the queue are there, and nothing in `btn_exit` waits for
what is pending but `destroy_workqueue`, which does not wait for a timer.
-/

open Library

namespace OK210Drivers.BottomHalf

/-- Nothing has been queued that was not there, and nothing is pending once `btn_exit` has returned. -/
def OnlyWithin (d : Driver) (s : State) : Prop :=
  s.bug = false ∧ (s.pc = d.program.length → s.timer = false ∧ ∀ item, s.queued item = false)

def Event.is_interrupt (e : Event) : Prop := ∃ i, e = .interrupt i

/-- An interrupt has come that no run of the item has followed. -/
def Unserved (item : Item) : List Event → Prop := Since Event.is_interrupt (· ≠ .run item)

/-- The delay has ended, and `btn_dwork` has not run since. -/
def Expired : List Event → Prop := Since (· = .expire) (· ≠ .run .btn_dwork)

/-- The interrupts have been served as far as `btn_exit` does not wait for them. -/
def Settled : Driver → List Event → Prop
  | .tasklet, es => ¬Unserved .button_tasklet es
  | .work_queue, es => ¬Unserved .btn_dwork es
  | .my_workqueue, es => Unserved .btn_dwork es → Expired es

/-- Interrupts come after all of `btn_init`, with a queue created, unless the item is static; the last
statement of `btn_exit` comes when the interrupts are settled. -/
def Timely (d : Driver) (es : List Event) (s : State) (e : Event) : Prop :=
  (d ≠ .tasklet → e.is_interrupt →
    (btn_init d).length ≤ s.pc ∧ .stmt .create_workqueue false ∉ es) ∧
  ∀ st ok, e = .stmt st ok → s.pc + 1 = d.program.length → Settled d es

/-- What the statements executed so far have set up. -/
def SetUp (d : Driver) (es : List Event) (s : State) : Prop :=
  match d with
  | .tasklet => s.initialised .button_tasklet = true
  | .work_queue => s.initialised .btn_dwork = true ↔ 10 ≤ s.pc
  | .my_workqueue => (s.initialised .btn_work = true ↔ 9 ≤ s.pc) ∧
      (s.initialised .btn_dwork = true ↔ 10 ≤ s.pc) ∧
      (s.btn_wq = .created ↔ 11 ≤ s.pc ∧ s.pc < 20 ∧ .stmt .create_workqueue false ∉ es)

/-- What is pending, by what has happened. -/
structure Pending (d : Driver) (es : List Event) (s : State) : Prop where
  timer : s.timer = true ↔ d ≠ .tasklet ∧ Unserved .btn_dwork es ∧ ¬Expired es
  dwork : s.queued .btn_dwork = true ↔ Expired es
  expired : Expired es → d ≠ .tasklet ∧ Unserved .btn_dwork es
  tasklet : s.queued .button_tasklet = true ↔ d = .tasklet ∧ Unserved .button_tasklet es
  work : s.queued .btn_work = true → d = .my_workqueue

structure Inv (d : Driver) (es : List Event) (s : State) : Prop where
  bug : s.bug = false
  lines : ∀ i, s.registered i = true → i < 8 ∧ i < s.pc ∧ s.pc ≤ (btn_init d).length + i
  setup : SetUp d es s
  failed : .stmt .create_workqueue false ∈ es → d = .my_workqueue ∧ 11 ≤ s.pc
  pending : s.pc < d.program.length → Pending d es s
  quiet : d.program.length ≤ s.pc → s.timer = false ∧ ∀ item, s.queued item = false

/-- The place of a statement in the program. -/
def Stmt.place (d : Driver) : Stmt → Nat
  | .request_irq i => i
  | .INIT_WORK => 8
  | .INIT_DELAYED_WORK => 9
  | .create_workqueue => 10
  | .free_irq i => (btn_init d).length + i
  | .destroy_workqueue => (btn_init d).length + 8

/-- The program has the statement. -/
def Stmt.Fits (d : Driver) (st : Stmt) : Prop :=
  match st with
  | .request_irq i => i < 8
  | .INIT_WORK => d ≠ .tasklet
  | .INIT_DELAYED_WORK => d ≠ .tasklet
  | .create_workqueue => d = .my_workqueue
  | .free_irq i => i < 8
  | .destroy_workqueue => d = .my_workqueue

instance (d : Driver) (st : Stmt) : Decidable (st.Fits d) :=
  match st with
  | .request_irq i => inferInstanceAs (Decidable (i < 8))
  | .INIT_WORK => inferInstanceAs (Decidable (d ≠ .tasklet))
  | .INIT_DELAYED_WORK => inferInstanceAs (Decidable (d ≠ .tasklet))
  | .create_workqueue => inferInstanceAs (Decidable (d = .my_workqueue))
  | .free_irq i => inferInstanceAs (Decidable (i < 8))
  | .destroy_workqueue => inferInstanceAs (Decidable (d = .my_workqueue))

section Program

variable {d : Driver} {st : Stmt} {k : Nat}

theorem program_place (h : d.program[k]? = some st) : k = st.place d ∧ st.Fits d := by
  have hall : ∀ j, (hj : j < d.program.length) →
      j = (d.program.get ⟨j, hj⟩).place d ∧ (d.program.get ⟨j, hj⟩).Fits d := by
    cases d <;> decide
  obtain ⟨hk, rfl⟩ := List.getElem?_eq_some_iff.mp h
  exact hall k hk

theorem place_lt (h : d.program[k]? = some st) : k < d.program.length :=
  (List.getElem?_eq_some_iff.mp h).1

end Program

section Steps

variable {d : Driver} {es : List Event} {e : Event} {s t : State} {st : Stmt} {ok : Bool}

theorem Stmt.exec_keeps (h : st.exec ok s = some t) : t.bug = s.bug ∧ t.timer = s.timer := by
  cases st with
  | destroy_workqueue =>
    unfold Stmt.exec at h
    by_cases hwq : s.btn_wq = .created
    · rw [if_pos hwq] at h
      cases h
      exact ⟨rfl, rfl⟩
    · rw [if_neg hwq] at h
      cases h
  | _ =>
    cases h
    exact ⟨rfl, rfl⟩

-- What is queued changes only when the queue is destroyed.
theorem Stmt.exec_queued (h : st.exec ok s = some t) (hst : st ≠ .destroy_workqueue) :
    t.queued = s.queued := by
  cases st with
  | destroy_workqueue => exact absurd rfl hst
  | _ =>
    cases h
    rfl

theorem step_stmt (h : Step d s (.stmt st ok) t) :
    d.program[s.pc]? = some st ∧ ∃ u, st.exec ok s = some u ∧ t = { u with pc := s.pc + 1 } := by
  obtain ⟨_, h⟩ := Option.ite_none_left_eq_some.mp h
  obtain ⟨hat, h⟩ := Option.ite_none_right_eq_some.mp h
  obtain ⟨u, hu, ht⟩ := Option.map_eq_some_iff.mp h
  exact ⟨hat, u, hu, ht.symm⟩

theorem step_interrupt {i : Nat} (h : Step d s (.interrupt i) t) :
    s.registered i = true ∧ t = (button_isr d s).getD { s with bug := true } := by
  obtain ⟨_, h⟩ := Option.ite_none_left_eq_some.mp h
  obtain ⟨hreg, h⟩ := Option.ite_none_right_eq_some.mp h
  exact ⟨hreg, (Option.some.inj h).symm⟩

theorem step_expire (h : Step d s .expire t) : s.timer = true ∧
    t = { s with timer := false, queued := Function.update s.queued .btn_dwork true } := by
  obtain ⟨_, h⟩ := Option.ite_none_left_eq_some.mp h
  obtain ⟨htimer, h⟩ := Option.ite_none_right_eq_some.mp h
  exact ⟨htimer.1, (Option.some.inj h).symm⟩

theorem step_run {item : Item} (h : Step d s (.run item) t) : s.queued item = true ∧
    t = { s with queued := Function.update s.queued item false } := by
  obtain ⟨_, h⟩ := Option.ite_none_left_eq_some.mp h
  obtain ⟨hq, h⟩ := Option.ite_none_right_eq_some.mp h
  exact ⟨hq, (Option.some.inj h).symm⟩

end Steps

section Interrupt

variable {d : Driver} {es : List Event} {s t : State} {i : Nat}

/-- What `button_isr` needs. -/
def Ready (d : Driver) (s : State) : Prop :=
  match d with
  | .tasklet => s.initialised .button_tasklet = true
  | .work_queue => s.initialised .btn_dwork = true
  | .my_workqueue => (s.btn_wq = .created ∧ s.initialised .btn_work = true) ∧
      s.btn_wq = .created ∧ s.initialised .btn_dwork = true

/-- The delay of `btn_dwork` starts, unless it is pending. -/
def delay (s : State) : State := { s with timer := s.timer || !s.queued .btn_dwork }

/-- What `button_isr` does. -/
def effect (d : Driver) (s : State) : State :=
  match d with
  | .tasklet => { s with queued := Function.update s.queued .button_tasklet true }
  | .work_queue => delay s
  | .my_workqueue => delay { s with queued := Function.update s.queued .btn_work true }

theorem queue_delayed_work_some {wq : Workqueue} :
    queue_delayed_work wq s = some t ↔ (wq = .created ∧ s.initialised .btn_dwork = true) ∧ t = delay s := by
  unfold queue_delayed_work
  rw [Option.ite_none_right_eq_some]
  refine and_congr_right fun _ ↦ ?_
  have hdelay : (if s.timer = true ∨ s.queued .btn_dwork = true then some s
      else some { s with timer := true }) = some (delay s) := by
    unfold delay
    by_cases hpending : s.timer = true ∨ s.queued .btn_dwork = true
    · have hsame : (s.timer || !s.queued .btn_dwork) = s.timer := by
        rcases hpending with h | h
        · rw [h, Bool.true_or]
        · rw [h, Bool.not_true, Bool.or_false]
      rw [if_pos hpending, hsame]
    · have harmed : (s.timer || !s.queued .btn_dwork) = true := by
        have hq : s.queued .btn_dwork = false := Bool.eq_false_iff.mpr fun h ↦ hpending (Or.inr h)
        rw [hq, Bool.not_false, Bool.or_true]
      rw [if_neg hpending, harmed]
  rw [hdelay, Option.some_inj, eq_comm]

theorem button_isr_some : button_isr d s = some t ↔ Ready d s ∧ t = effect d s := by
  cases d with
  | tasklet =>
    show tasklet_schedule s = some t ↔ _
    unfold tasklet_schedule
    rw [Option.ite_none_right_eq_some, Option.some_inj]
    exact and_congr_right' eq_comm
  | work_queue =>
    show queue_delayed_work .created s = some t ↔ _
    rw [queue_delayed_work_some]
    exact and_congr_left' (and_iff_right rfl)
  | my_workqueue =>
    show (queue_work s.btn_wq .btn_work s).bind _ = some t ↔ _
    unfold queue_work
    by_cases hwork : s.btn_wq = .created ∧ s.initialised .btn_work = true
    · rw [if_pos hwork, Option.bind_some, queue_delayed_work_some]
      exact and_congr_left' (and_iff_right hwork).symm
    · rw [if_neg hwork]
      exact iff_of_false (fun h ↦ (nomatch h)) fun h ↦ hwork h.1.1

theorem effect_keeps : (effect d s).pc = s.pc ∧ (effect d s).registered = s.registered ∧
    (effect d s).initialised = s.initialised ∧ (effect d s).btn_wq = s.btn_wq ∧
    (effect d s).bug = s.bug := by
  cases d <;> exact ⟨rfl, rfl, rfl, rfl, rfl⟩

/-- On a registered line `button_isr` has what it needs exactly when `btn_init` has been through and has
a queue, or the tasklet is static. -/
theorem ready_iff (h : Inv d es s) (hi : s.registered i = true) :
    Ready d s ↔ (d ≠ .tasklet → (btn_init d).length ≤ s.pc ∧ .stmt .create_workqueue false ∉ es) := by
  obtain ⟨hi8, _, hpc⟩ := h.lines i hi
  have hsetup := h.setup
  cases d with
  | tasklet => exact iff_of_true hsetup fun hne ↦ absurd rfl hne
  | work_queue =>
    have hfail : .stmt .create_workqueue false ∉ es := fun hmem ↦ nomatch (h.failed hmem).1
    rw [show Ready .work_queue s ↔ 10 ≤ s.pc from hsetup]
    exact ⟨fun hle _ ↦ ⟨hle, hfail⟩, fun himp ↦ (himp (by decide)).1⟩
  | my_workqueue =>
    obtain ⟨hwork, hdwork, hwq⟩ := hsetup
    show (_ ∧ _) ∧ _ ∧ _ ↔ (_ → 11 ≤ s.pc ∧ _)
    have hpc : s.pc ≤ 11 + i := hpc
    constructor
    · rintro ⟨⟨hcreated, _⟩, _⟩ _
      obtain ⟨hle, _, hnot⟩ := hwq.mp hcreated
      exact ⟨hle, hnot⟩
    · intro himp
      obtain ⟨hle, hnot⟩ := himp (by decide)
      have hcreated := hwq.mpr ⟨hle, by omega, hnot⟩
      exact ⟨⟨hcreated, hwork.mpr (by omega)⟩, hcreated, hdwork.mpr (by omega)⟩

end Interrupt

section Pending

variable {d : Driver} {es : List Event} {e : Event} {s t : State} {st : Stmt} {ok : Bool} {i : Nat}
  {item : Item}

theorem unserved_snoc : Unserved item (es ++ [e]) ↔
    e.is_interrupt ∨ Unserved item es ∧ e ≠ .run item := since_snoc

theorem expired_snoc : Expired (es ++ [e]) ↔ e = .expire ∨ Expired es ∧ e ≠ .run .btn_dwork := since_snoc

-- An event of another kind.
theorem unserved_other (hint : ¬e.is_interrupt) (hrun : e ≠ .run item) :
    Unserved item (es ++ [e]) ↔ Unserved item es := by
  rw [unserved_snoc, or_iff_right hint, and_iff_left hrun]

theorem expired_other (hexp : e ≠ .expire) (hrun : e ≠ .run .btn_dwork) :
    Expired (es ++ [e]) ↔ Expired es := by
  rw [expired_snoc, or_iff_right hexp, and_iff_left hrun]

theorem not_interrupt_stmt : ¬(Event.stmt st ok).is_interrupt := fun h ↦ (nomatch h.choose_spec)

theorem not_interrupt_expire : ¬Event.expire.is_interrupt := fun h ↦ (nomatch h.choose_spec)

theorem not_interrupt_run : ¬(Event.run item).is_interrupt := fun h ↦ (nomatch h.choose_spec)

theorem Pending.stmt (h : Pending d es s) (htimer : t.timer = s.timer) (hqueued : t.queued = s.queued) :
    Pending d (es ++ [.stmt st ok]) t := by
  have hun : ∀ item, Unserved item (es ++ [.stmt st ok]) ↔ Unserved item es :=
    fun item ↦ unserved_other not_interrupt_stmt nofun
  have hex : Expired (es ++ [.stmt st ok]) ↔ Expired es := expired_other nofun nofun
  constructor
  case timer =>
    rw [htimer, hun, hex]
    exact h.timer
  case dwork =>
    rw [hqueued, hex]
    exact h.dwork
  case expired =>
    rw [hun, hex]
    exact h.expired
  case tasklet =>
    rw [hqueued, hun]
    exact h.tasklet
  case work =>
    rw [hqueued]
    exact h.work

theorem Pending.interrupt (h : Pending d es s) : Pending d (es ++ [.interrupt i]) (effect d s) := by
  have hun : ∀ item, Unserved item (es ++ [.interrupt i]) :=
    fun item ↦ unserved_snoc.mpr (Or.inl ⟨i, rfl⟩)
  have hex : Expired (es ++ [.interrupt i]) ↔ Expired es := expired_other nofun nofun
  -- The timer is pending now unless `btn_dwork` is queued.
  have harm : (s.timer || !s.queued .btn_dwork) = true ↔ ¬Expired es := by
    rw [Bool.or_eq_true, Bool.not_eq_true', ← Bool.not_eq_true, h.dwork, h.timer]
    exact ⟨fun hor ↦ hor.elim (fun hall ↦ hall.2.2) id, Or.inr⟩
  constructor
  case timer =>
    rw [hex, and_iff_right (hun .btn_dwork)]
    cases d with
    | tasklet =>
      refine iff_of_false (fun ht ↦ ?_) fun hne ↦ hne.1 rfl
      exact (h.timer.mp ht).1 rfl
    | work_queue => exact harm.trans (and_iff_right (by decide)).symm
    | my_workqueue => exact harm.trans (and_iff_right (by decide)).symm
  case dwork =>
    rw [hex, ← h.dwork]
    cases d with
    | tasklet => exact Iff.rfl
    | work_queue => exact Iff.rfl
    | my_workqueue => exact Iff.rfl
  case expired => exact fun hexp ↦ ⟨(h.expired (hex.mp hexp)).1, hun .btn_dwork⟩
  case tasklet =>
    rw [and_iff_left (hun .button_tasklet)]
    cases d with
    | tasklet => exact iff_of_true rfl rfl
    | work_queue => exact h.tasklet.trans (iff_of_false (fun hf ↦ (nomatch hf.1)) nofun)
    | my_workqueue => exact h.tasklet.trans (iff_of_false (fun hf ↦ (nomatch hf.1)) nofun)
  case work =>
    cases d with
    | tasklet => exact h.work
    | work_queue => exact h.work
    | my_workqueue => exact fun _ ↦ rfl

theorem Pending.expire (h : Pending d es s) (htimer : s.timer = true) :
    Pending d (es ++ [.expire])
      { s with timer := false, queued := Function.update s.queued .btn_dwork true } := by
  have hun : ∀ item, Unserved item (es ++ [.expire]) ↔ Unserved item es :=
    fun item ↦ unserved_other not_interrupt_expire nofun
  have hex : Expired (es ++ [.expire]) := expired_snoc.mpr (Or.inl rfl)
  constructor
  case timer => exact iff_of_false nofun fun hnot ↦ hnot.2.2 hex
  case dwork => exact iff_of_true rfl hex
  case expired =>
    rw [hun]
    exact fun _ ↦ ⟨(h.timer.mp htimer).1, (h.timer.mp htimer).2.1⟩
  case tasklet =>
    rw [hun]
    exact h.tasklet
  case work => exact h.work

theorem Pending.run (h : Pending d es s) (hq : s.queued item = true) :
    Pending d (es ++ [.run item]) { s with queued := Function.update s.queued item false } := by
  have hself : ¬Unserved item (es ++ [.run item]) := by
    rw [unserved_snoc]
    rintro (hint | ⟨_, hne⟩)
    · exact not_interrupt_run hint
    · exact hne rfl
  have hun : ∀ other, item ≠ other → (Unserved other (es ++ [.run item]) ↔ Unserved other es) :=
    fun other hne ↦ unserved_other not_interrupt_run fun heq ↦ hne (Event.run.inj heq)
  have hother : item ≠ .btn_dwork →
      (s.timer = true ↔ d ≠ .tasklet ∧ Unserved .btn_dwork (es ++ [.run item]) ∧ ¬Expired (es ++ [.run item])) ∧
      (s.queued .btn_dwork = true ↔ Expired (es ++ [.run item])) ∧
      (Expired (es ++ [.run item]) → d ≠ .tasklet ∧ Unserved .btn_dwork (es ++ [.run item])) := by
    intro hne
    have hex : Expired (es ++ [.run item]) ↔ Expired es :=
      expired_other nofun fun heq ↦ hne (Event.run.inj heq)
    rw [hun .btn_dwork hne, hex]
    exact ⟨h.timer, h.dwork, h.expired⟩
  cases item with
  | button_tasklet =>
    obtain ⟨htimer, hdwork, hexp⟩ := hother nofun
    exact ⟨htimer, hdwork, hexp, iff_of_false nofun fun hnot ↦ hself hnot.2, h.work⟩
  | btn_work =>
    obtain ⟨htimer, hdwork, hexp⟩ := hother nofun
    refine ⟨htimer, hdwork, hexp, ?_, nofun⟩
    rw [hun .button_tasklet nofun]
    exact h.tasklet
  | btn_dwork =>
    have hnot : ¬Expired (es ++ [.run .btn_dwork]) := by
      rw [expired_snoc]
      rintro (hexp | ⟨_, hne⟩)
      · cases hexp
      · exact hne rfl
    refine ⟨?_, iff_of_false nofun hnot, fun hexp ↦ absurd hexp hnot, ?_, h.work⟩
    · exact iff_of_false (fun ht ↦ (h.timer.mp ht).2.2 (h.dwork.mp hq)) fun hun ↦ hself hun.2.1
    · rw [hun .button_tasklet nofun]
      exact h.tasklet

end Pending

section Statements

variable {d : Driver} {es : List Event} {s t u : State} {st : Stmt} {ok : Bool}

theorem eight_le_init : 8 ≤ (btn_init d).length := by
  cases d <;> decide

theorem ten_le_init (hd : d ≠ .tasklet) : 10 ≤ (btn_init d).length := by
  cases d with
  | tasklet => exact absurd rfl hd
  | work_queue => decide
  | my_workqueue => decide

theorem lines_stmt (h : Inv d es s) (hat : d.program[s.pc]? = some st) (hu : st.exec ok s = some u) (j : Nat)
    (hj : u.registered j = true) : j < 8 ∧ j < s.pc + 1 ∧ s.pc + 1 ≤ (btn_init d).length + j := by
  obtain ⟨hplace, hfits⟩ := program_place hat
  have hlen := @eight_le_init d
  -- A line that was there stays there while `btn_init` runs.
  have hold : s.registered j = true → s.pc + 1 ≤ (btn_init d).length →
      j < 8 ∧ j < s.pc + 1 ∧ s.pc + 1 ≤ (btn_init d).length + j := by
    intro hreg hle
    obtain ⟨hj8, hjpc, _⟩ := h.lines j hreg
    omega
  cases st with
  | request_irq i =>
    have hi : s.pc = i := hplace
    have hi8 : i < 8 := hfits
    cases hu
    have hj : Function.update s.registered i ok j = true := hj
    by_cases hji : j = i
    · omega
    · rw [Function.update_of_ne hji] at hj
      exact hold hj (by omega)
  | INIT_WORK =>
    have hpc : s.pc = 8 := hplace
    have hten := ten_le_init hfits
    cases hu
    exact hold hj (by omega)
  | INIT_DELAYED_WORK =>
    have hpc : s.pc = 9 := hplace
    have hten := ten_le_init hfits
    cases hu
    exact hold hj (by omega)
  | create_workqueue =>
    have hpc : s.pc = 10 := hplace
    have hd : d = .my_workqueue := hfits
    have heleven : (btn_init d).length = 11 := by
      rw [hd]
      rfl
    cases hu
    exact hold hj (by omega)
  | free_irq i =>
    have hpc : s.pc = (btn_init d).length + i := hplace
    cases hu
    have hj : Function.update s.registered i false j = true := hj
    by_cases hji : j = i
    · rw [hji, Function.update_self] at hj
      cases hj
    · rw [Function.update_of_ne hji] at hj
      obtain ⟨hj8, hjpc, hle⟩ := h.lines j hj
      omega
  | destroy_workqueue =>
    have hpc : s.pc = (btn_init d).length + 8 := hplace
    obtain ⟨_, hu⟩ := Option.ite_none_right_eq_some.mp hu
    cases hu
    obtain ⟨hj8, _, hle⟩ := h.lines j hj
    omega

theorem exec_initialised (hu : st.exec ok s = some u) (item : Item) :
    u.initialised item = true ↔ s.initialised item = true ∨ (st = .INIT_WORK ∧ item = .btn_work) ∨
      (st = .INIT_DELAYED_WORK ∧ item = .btn_dwork) := by
  cases st with
  | INIT_WORK =>
    cases hu
    show Function.update s.initialised .btn_work true item = true ↔ _
    cases item <;> simp
  | INIT_DELAYED_WORK =>
    cases hu
    show Function.update s.initialised .btn_dwork true item = true ↔ _
    cases item <;> simp
  | destroy_workqueue =>
    obtain ⟨_, hu⟩ := Option.ite_none_right_eq_some.mp hu
    cases hu
    simp
  | _ =>
    cases hu
    simp

theorem exec_btn_wq (hu : st.exec ok s = some u) : u.btn_wq = .created ↔
    st = .create_workqueue ∧ ok = true ∨
      st ≠ .create_workqueue ∧ st ≠ .destroy_workqueue ∧ s.btn_wq = .created := by
  cases st with
  | create_workqueue =>
    cases hu
    cases ok <;> simp
  | destroy_workqueue =>
    obtain ⟨_, hu⟩ := Option.ite_none_right_eq_some.mp hu
    cases hu
    simp
  | _ =>
    cases hu
    simp

-- No statement occurs twice.
theorem at_iff {st' : Stmt} {k : Nat} (hat : d.program[s.pc]? = some st) (hk : d.program[k]? = some st') :
    st = st' ↔ s.pc = k := by
  constructor
  · rintro rfl
    exact (program_place hat).1.trans (program_place hk).1.symm
  · intro hpc
    rw [hpc, hk] at hat
    exact (Option.some.inj hat).symm

theorem setUp_stmt (h : Inv d es s) (hat : d.program[s.pc]? = some st) (hu : st.exec ok s = some u) :
    SetUp d (es ++ [.stmt st ok]) { u with pc := s.pc + 1 } := by
  have hsetup := h.setup
  have hinit := exec_initialised hu
  cases d with
  | tasklet =>
    show u.initialised .button_tasklet = true
    exact (hinit .button_tasklet).mpr (Or.inl hsetup)
  | work_queue =>
    have hdelayed : st = .INIT_DELAYED_WORK ↔ s.pc = 9 := at_iff hat rfl
    have hold : s.initialised .btn_dwork = true ↔ 10 ≤ s.pc := hsetup
    show u.initialised .btn_dwork = true ↔ 10 ≤ s.pc + 1
    rw [hinit, hold, hdelayed]
    simp only [reduceCtorEq, and_false, and_true, false_or]
    omega
  | my_workqueue =>
    have hwork : st = .INIT_WORK ↔ s.pc = 8 := at_iff hat rfl
    have hdelayed : st = .INIT_DELAYED_WORK ↔ s.pc = 9 := at_iff hat rfl
    have hcreate : st = .create_workqueue ↔ s.pc = 10 := at_iff hat rfl
    have hdestroy : st = .destroy_workqueue ↔ s.pc = 19 := at_iff hat rfl
    obtain ⟨hold, hdold, hqold⟩ := hsetup
    refine ⟨?_, ?_, ?_⟩
    · show u.initialised .btn_work = true ↔ 9 ≤ s.pc + 1
      rw [hinit, hold, hwork]
      simp only [reduceCtorEq, and_false, and_true, or_false]
      omega
    · show u.initialised .btn_dwork = true ↔ 10 ≤ s.pc + 1
      rw [hinit, hdold, hdelayed]
      simp only [reduceCtorEq, and_false, and_true, false_or]
      omega
    · show u.btn_wq = .created ↔ 11 ≤ s.pc + 1 ∧ s.pc + 1 < 20 ∧ _ ∉ es ++ [.stmt st ok]
      have hfail : s.pc = 10 → .stmt .create_workqueue false ∉ es := by
        intro hpc hmem
        have hle := (h.failed hmem).2
        omega
      have hlt := place_lt hat
      have hlen : Driver.my_workqueue.program.length = 20 := rfl
      rw [exec_btn_wq hu, List.mem_append, List.mem_singleton, not_or, hqold, Ne, Ne, hcreate, hdestroy]
      by_cases hpc : s.pc = 10
      · have hst := hcreate.mpr hpc
        rw [hst]
        cases ok
        · simp [hpc]
        · simp [hpc, hfail hpc]
      · have hst : Event.stmt .create_workqueue false ≠ .stmt st ok := by
          intro heq
          cases heq
          exact hpc (hcreate.mp rfl)
        simp only [hpc, hst, false_and, not_false_iff, and_true, false_or, true_and]
        constructor
        · rintro ⟨_, _, _, hnot⟩
          exact ⟨by omega, by omega, hnot⟩
        · rintro ⟨_, _, hnot⟩
          exact ⟨by omega, by omega, by omega, hnot⟩

/-- The last statement is `destroy_workqueue` where there is a queue of the driver's own. -/
theorem last_iff (hat : d.program[s.pc]? = some st) (hlast : s.pc + 1 = d.program.length) :
    st = .destroy_workqueue ↔ d = .my_workqueue := by
  cases d with
  | my_workqueue =>
    have hlen : Driver.my_workqueue.program.length = 20 := rfl
    exact iff_of_true ((at_iff hat (k := 19) rfl).mpr (by omega)) rfl
  | _ =>
    refine iff_of_false ?_ nofun
    rintro rfl
    cases (program_place hat).2

theorem exec_destroy (hu : Stmt.exec .destroy_workqueue ok s = some u) (item : Item) :
    u.queued item = (s.queued item && decide (item = .button_tasklet)) := by
  obtain ⟨_, hu⟩ := Option.ite_none_right_eq_some.mp hu
  cases hu
  rfl

/-- Nothing is pending after the last statement exactly if the interrupts were settled before it. -/
theorem quiet_iff (h : Pending d es s) (hat : d.program[s.pc]? = some st) (hu : st.exec ok s = some u)
    (hlast : s.pc + 1 = d.program.length) :
    Settled d es ↔ u.timer = false ∧ ∀ item, u.queued item = false := by
  have htimer := (Stmt.exec_keeps hu).2
  have hlast := last_iff hat hlast
  have hkept : d ≠ .my_workqueue → u.queued = s.queued :=
    fun hd ↦ Stmt.exec_queued hu fun hst ↦ hd (hlast.mp hst)
  cases d with
  | tasklet =>
    rw [htimer, hkept nofun]
    have hoff : s.timer = false := Bool.eq_false_iff.mpr fun ht ↦ (h.timer.mp ht).1 rfl
    constructor
    · intro hnot
      refine ⟨hoff, fun item ↦ Bool.eq_false_iff.mpr fun hq ↦ ?_⟩
      cases item with
      | button_tasklet => exact hnot (h.tasklet.mp hq).2
      | btn_work => cases h.work hq
      | btn_dwork => exact (h.expired (h.dwork.mp hq)).1 rfl
    · rintro ⟨_, hall⟩ hun
      exact Bool.eq_false_iff.mp (hall .button_tasklet) (h.tasklet.mpr ⟨rfl, hun⟩)
  | work_queue =>
    rw [htimer, hkept nofun]
    constructor
    · intro hnot
      refine ⟨Bool.eq_false_iff.mpr fun ht ↦ hnot (h.timer.mp ht).2.1, fun item ↦ ?_⟩
      refine Bool.eq_false_iff.mpr fun hq ↦ ?_
      cases item with
      | button_tasklet => cases (h.tasklet.mp hq).1
      | btn_work => cases h.work hq
      | btn_dwork => exact hnot (h.expired (h.dwork.mp hq)).2
    · rintro ⟨hoff, hall⟩ hun
      refine Bool.eq_false_iff.mp hoff (h.timer.mpr ⟨nofun, hun, fun hex ↦ ?_⟩)
      exact Bool.eq_false_iff.mp (hall .btn_dwork) (h.dwork.mpr hex)
  | my_workqueue =>
    obtain rfl := hlast.mpr rfl
    rw [htimer]
    constructor
    · intro himp
      refine ⟨Bool.eq_false_iff.mpr fun ht ↦ ?_, fun item ↦ ?_⟩
      · exact (h.timer.mp ht).2.2 (himp (h.timer.mp ht).2.1)
      · rw [exec_destroy hu]
        cases item with
        | button_tasklet =>
          refine Bool.eq_false_iff.mpr fun hq ↦ ?_
          cases (h.tasklet.mp (Bool.and_eq_true_iff.mp hq).1).1
        | btn_work => exact Bool.and_false _
        | btn_dwork => exact Bool.and_false _
    · rintro ⟨hoff, _⟩ hun
      by_contra hex
      exact Bool.eq_false_iff.mp hoff (h.timer.mpr ⟨nofun, hun, hex⟩)

end Statements

section Runs

variable {d : Driver} {es : List Event} {e : Event} {s t : State}

theorem inv_start : Inv d [] start where
  bug := rfl
  lines := nofun
  setup := by
    cases d with
    | tasklet => rfl
    | work_queue => exact iff_of_false nofun nofun
    | my_workqueue =>
      exact ⟨iff_of_false nofun nofun, iff_of_false nofun nofun, iff_of_false nofun fun h ↦ nomatch h.1⟩
  failed := nofun
  pending := fun _ ↦ ⟨iff_of_false nofun fun h ↦ not_since_nil h.2.1, iff_of_false nofun not_since_nil,
    fun h ↦ absurd h not_since_nil, iff_of_false nofun fun h ↦ not_since_nil h.2, nofun⟩
  quiet := fun _ ↦ ⟨rfl, fun _ ↦ rfl⟩

theorem Inv.stmt {st : Stmt} {ok : Bool} (h : Inv d es s) (hs : Step d s (.stmt st ok) t)
    (hc : Timely d es s (.stmt st ok)) : Inv d (es ++ [.stmt st ok]) t := by
  obtain ⟨hat, u, hu, rfl⟩ := step_stmt hs
  have hpending := h.pending (place_lt hat)
  constructor
  case bug => exact (Stmt.exec_keeps hu).1.trans h.bug
  case lines => exact fun j hj ↦ lines_stmt h hat hu j hj
  case setup => exact setUp_stmt h hat hu
  case failed =>
    intro hmem
    show _ ∧ 11 ≤ s.pc + 1
    rcases List.mem_append.mp hmem with hmem | hmem
    · obtain ⟨hd, hle⟩ := h.failed hmem
      exact ⟨hd, by omega⟩
    · cases List.mem_singleton.mp hmem
      obtain ⟨hplace, hfits⟩ := program_place hat
      have hpc : s.pc = 10 := hplace
      exact ⟨hfits, by omega⟩
  case pending =>
    intro hlt
    have hlt : s.pc + 1 < d.program.length := hlt
    have hst : st ≠ .destroy_workqueue := by
      rintro rfl
      obtain ⟨hplace, hfits⟩ := program_place hat
      have hd : d = .my_workqueue := hfits
      cases hd
      have hpc : s.pc = 19 := hplace
      have hlen : Driver.my_workqueue.program.length = 20 := rfl
      omega
    have hqueued : u.queued = s.queued := Stmt.exec_queued hu hst
    exact hpending.stmt (Stmt.exec_keeps hu).2 hqueued
  case quiet =>
    intro hlast
    have hlast : s.pc + 1 = d.program.length := Nat.le_antisymm (place_lt hat) hlast
    exact (quiet_iff hpending hat hu hlast).mp (hc.2 st ok rfl hlast)

-- What an event other than a statement leaves.
theorem Inv.keep (h : Inv d es s) (hlt : s.pc < d.program.length) (hbug : t.bug = false) (hpc : t.pc = s.pc)
    (hreg : t.registered = s.registered) (hinit : t.initialised = s.initialised)
    (hwq : t.btn_wq = s.btn_wq) (he : ∀ st ok, e ≠ .stmt st ok) (hpending : Pending d (es ++ [e]) t) :
    Inv d (es ++ [e]) t := by
  have hmem : .stmt .create_workqueue false ∈ es ++ [e] ↔ .stmt .create_workqueue false ∈ es := by
    rw [List.mem_append, List.mem_singleton]
    exact or_iff_left (he _ _).symm
  constructor
  case bug => exact hbug
  case lines =>
    rw [hreg, hpc]
    exact h.lines
  case setup =>
    have hsetup := h.setup
    cases d with
    | my_workqueue =>
      show _ ∧ _ ∧ (_ ↔ _ ∧ _ ∧ ¬_ ∈ es ++ [e])
      rw [hmem, hinit, hwq, hpc]
      exact hsetup
    | tasklet =>
      unfold SetUp
      rw [hinit]
      exact hsetup
    | work_queue =>
      unfold SetUp
      rw [hinit, hpc]
      exact hsetup
  case failed =>
    rw [hmem, hpc]
    exact h.failed
  case pending => exact fun _ ↦ hpending
  case quiet =>
    intro hlast
    omega

-- Once `btn_exit` has returned with nothing pending, nothing can happen.
theorem Inv.not_returned (h : Inv d es s) (hs : Step d s e t) : s.pc < d.program.length := by
  by_contra hge
  have hlen : d.program.length ≤ s.pc := Nat.le_of_not_lt hge
  cases e with
  | stmt st ok => exact hge (place_lt (step_stmt hs).1)
  | interrupt i =>
    obtain ⟨hi, _, hle⟩ := h.lines i (step_interrupt hs).1
    have hexit : (btn_init d).length + 8 ≤ d.program.length := by
      cases d <;> decide
    omega
  | expire =>
    have htimer := (step_expire hs).1
    rw [(h.quiet hlen).1] at htimer
    cases htimer
  | run item =>
    have hq := (step_run hs).1
    rw [(h.quiet hlen).2] at hq
    cases hq

theorem Inv.step (h : Inv d es s) (hs : Step d s e t) (hc : Timely d es s e) : Inv d (es ++ [e]) t := by
  have hlt := h.not_returned hs
  have hpending := h.pending hlt
  cases e with
  | stmt st ok => exact h.stmt hs hc
  | interrupt i =>
    obtain ⟨hi, rfl⟩ := step_interrupt hs
    have hready : Ready d s := (ready_iff h hi).mpr fun hd ↦ hc.1 hd ⟨i, rfl⟩
    obtain ⟨hpc, hreg, hinit, hwq, hbug⟩ := @effect_keeps d s
    rw [button_isr_some.mpr ⟨hready, rfl⟩]
    exact h.keep hlt (hbug.trans h.bug) hpc hreg hinit hwq nofun hpending.interrupt
  | expire =>
    obtain ⟨htimer, rfl⟩ := step_expire hs
    exact h.keep hlt h.bug rfl rfl rfl rfl nofun (hpending.expire htimer)
  | run item =>
    obtain ⟨hq, rfl⟩ := step_run hs
    exact h.keep hlt h.bug rfl rfl rfl rfl nofun (hpending.run hq)

theorem Inv.onlyWithin (h : Inv d es s) : OnlyWithin d s := ⟨h.bug, fun hlast ↦ h.quiet (Nat.le_of_eq hlast.symm)⟩

theorem timely_of_onlyWithin (h : Inv d es s) (hs : Step d s e t) (ht : OnlyWithin d t) : Timely d es s e := by
  constructor
  · rintro hd ⟨i, rfl⟩
    obtain ⟨hi, rfl⟩ := step_interrupt hs
    have hbug := ht.1
    cases hisr : button_isr d s with
    | none =>
      rw [hisr] at hbug
      cases hbug
    | some u => exact (ready_iff h hi).mp (button_isr_some.mp hisr).1 hd
  · rintro st ok rfl hlast
    obtain ⟨hat, u, hu, rfl⟩ := step_stmt hs
    exact (quiet_iff (h.pending (place_lt hat)) hat hu hlast).mpr (ht.2 hlast)

/-- Deferred work exists only between init and exit in exactly the runs in which the interrupts come
after `btn_init` has set up what they queue, and are settled before `btn_exit` ends. -/
theorem onlyWithin_iff : GuardedRun (Step d) (Timely d) start es s ↔
    KeepingRun (Step d) (fun _ s ↦ OnlyWithin d s) start es s :=
  guardedRun_iff_keepingRun (Inv d) inv_start (fun _ _ h ↦ h.onlyWithin)
    (fun _ _ _ _ h hs hc ↦ h.step hs hc) fun _ _ _ _ h hs ht ↦ timely_of_onlyWithin h hs ht

end Runs

/-- The driver is loaded, a button pressed and the driver removed. -/
def pressed (d : Driver) : List Event :=
  (btn_init d).map (.stmt · true) ++ .interrupt 0 :: (btn_exit d).map (.stmt · true)

/-- A press after the first `request_irq` queues what is not there; a press before the removal leaves the
tasklet or the timer pending. -/
theorem early_and_late :
    (∃ s, Run (Step .work_queue) start [.stmt (.request_irq 0) true, .interrupt 0] s ∧ s.bug = true ∧
      ¬OnlyWithin .work_queue s) ∧
    (∃ s, Run (Step .my_workqueue) start [.stmt (.request_irq 0) true, .interrupt 0] s ∧ s.bug = true ∧
      ¬OnlyWithin .my_workqueue s) ∧
    (∃ s, Run (Step .tasklet) start (pressed .tasklet) s ∧ s.pc = Driver.tasklet.program.length ∧
      s.queued .button_tasklet = true ∧ ¬OnlyWithin .tasklet s) ∧
    (∃ s, Run (Step .work_queue) start (pressed .work_queue) s ∧
      s.pc = Driver.work_queue.program.length ∧ s.timer = true ∧ ¬OnlyWithin .work_queue s) ∧
    ∃ s, Run (Step .my_workqueue) start (pressed .my_workqueue) s ∧
      s.pc = Driver.my_workqueue.program.length ∧ s.timer = true ∧ ¬OnlyWithin .my_workqueue s := by
  have hbug : ∀ {d s}, s.bug = true → ¬OnlyWithin d s := by
    intro d s hs h
    have hoff := h.1
    rw [hs] at hoff
    cases hoff
  have htimer : ∀ {d : Driver} {s : State}, s.pc = d.program.length → s.timer = true → ¬OnlyWithin d s := by
    intro d s hpc hs h
    have hoff := (h.2 hpc).1
    rw [hs] at hoff
    cases hoff
  have htasklet : ∀ {d : Driver} {s : State}, s.pc = d.program.length → s.queued .button_tasklet = true →
      ¬OnlyWithin d s := by
    intro d s hpc hs h
    have hoff := (h.2 hpc).2 .button_tasklet
    rw [hs] at hoff
    cases hoff
  exact ⟨⟨_, Run.of_foldlM rfl, rfl, hbug rfl⟩, ⟨_, Run.of_foldlM rfl, rfl, hbug rfl⟩,
    ⟨_, Run.of_foldlM rfl, rfl, rfl, htasklet rfl rfl⟩, ⟨_, Run.of_foldlM rfl, rfl, rfl, htimer rfl rfl⟩,
    ⟨_, Run.of_foldlM rfl, rfl, rfl, htimer rfl rfl⟩⟩

end OK210Drivers.BottomHalf
