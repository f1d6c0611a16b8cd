import OK210Drivers.Key.Driver

/-!
# When the latest key event is lost

`irq_key_read` clears `ev_press` after it has copied `key_val`.  An interrupt between the two stores a
new `key_val` and sets `ev_press`, which the reader then clears: the new value is still there, but
neither `poll` nor the next read sees it before another interrupt comes.
-/

open Library

namespace OK210Drivers.Key

def Event.isInterrupt : Event → Bool
  | .interrupt _ _ => true
  | _ => false

def Event.isCopy : Event → Bool
  | .copy _ _ => true
  | _ => false

/-- The key value stored by the latest interrupt has been copied to no reader since. -/
def Uncopied : List Event → Prop :=
  Since (fun e ↦ e.isInterrupt = true) fun e ↦ e.isInterrupt = false ∧ e.isCopy = false

/-- As long as nobody has got the latest key value, `ev_press` is set, `poll` reports it and a read
passes the wait. -/
def LatestKept (table : List ButtonIrqDesc) (es : List Event) (s : State) : Prop :=
  Uncopied es → s.ev_press = 1 ∧ irq_key_poll s = POLLIN ||| POLLRDNORM ∧
    ∀ r, s.readers r = .waiting → ∃ t, Step table s (.wake r) t

/-- `ev_press` is cleared only when the latest key value has been copied. -/
def ClearsCopied (es : List Event) (_ : State) (e : Event) : Prop :=
  ∀ r, e = .clear r → ¬ Uncopied es

section History

variable {es : List Event} {e : Event}

theorem uncopied_snoc : Uncopied (es ++ [e]) ↔
    e.isInterrupt = true ∨ Uncopied es ∧ e.isInterrupt = false ∧ e.isCopy = false :=
  since_snoc

@[simp] theorem uncopied_interrupt (b : ButtonIrqDesc) (pinval : BitVec 32) :
    Uncopied (es ++ [.interrupt b pinval]) :=
  uncopied_snoc.mpr (Or.inl rfl)

@[simp] theorem not_uncopied_copy (r : Nat) (v : BitVec 8) : ¬ Uncopied (es ++ [.copy r v]) := by
  simp [uncopied_snoc, Event.isInterrupt, Event.isCopy]

theorem uncopied_of_not (hint : e.isInterrupt = false) (hcopy : e.isCopy = false) :
    Uncopied (es ++ [e]) ↔ Uncopied es := by
  simp [uncopied_snoc, hint, hcopy]

end History

section Run

variable {table : List ButtonIrqDesc} {es : List Event} {e : Event} {s t : State}

-- Only an interrupt and the end of a read touch `ev_press`.
theorem ev_press_step (hs : Step table s e t) :
    (e.isInterrupt = true ∧ t.ev_press = 1) ∨ (∃ r, e = .clear r ∧ t.ev_press = 0) ∨
      (t.ev_press = s.ev_press ∧ e.isInterrupt = false ∧ ∀ r, e ≠ .clear r) := by
  cases hs with
  | interrupt _ _ => exact Or.inl ⟨rfl, rfl⟩
  | clear _ => exact Or.inr (Or.inl ⟨_, rfl, rfl⟩)
  | _ => exact Or.inr (Or.inr ⟨rfl, rfl, by simp⟩)

theorem latestKept_of_ev_press (h : Uncopied es → s.ev_press = 1) : LatestKept table es s := by
  intro hu
  have h1 := h hu
  have hne : s.ev_press ≠ 0 := by omega
  refine ⟨h1, ?_, fun r hr ↦ ⟨_, .wake hr hne⟩⟩
  rw [irq_key_poll, if_pos hne]
  rfl

theorem ev_press_kept (hi : Uncopied es → s.ev_press = 1) (hs : Step table s e t)
    (hc : ClearsCopied es s e) : Uncopied (es ++ [e]) → t.ev_press = 1 := by
  intro hu
  rcases ev_press_step hs with ⟨_, ht⟩ | ⟨r, rfl, _⟩ | ⟨ht, hint, _⟩
  · exact ht
  · have hu' := (uncopied_of_not rfl rfl).mp hu
    exact absurd hu' (hc r rfl)
  · rcases uncopied_snoc.mp hu with hint' | ⟨hu', _⟩
    · rw [hint] at hint'
      cases hint'
    · rw [ht]
      exact hi hu'

/-- The latest event is kept throughout exactly in the runs in which no read clears `ev_press` while
the latest key value waits to be copied. -/
theorem latestKept_iff : GuardedRun (Step table) ClearsCopied State.init es s ↔
    KeepingRun (Step table) (LatestKept table) State.init es s := by
  refine guardedRun_iff_keepingRun (fun es s ↦ Uncopied es → s.ev_press = 1)
    (fun h ↦ absurd h not_since_nil) (fun es s ↦ latestKept_of_ev_press)
    (fun es s e t ↦ ev_press_kept) ?_
  rintro es s e t _ hs hp r rfl hu
  have hu' : Uncopied (es ++ [.clear r]) := (uncopied_of_not rfl rfl).mpr hu
  have h1 := (hp hu').1
  rcases ev_press_step hs with ⟨he, _⟩ | ⟨_, _, h0⟩ | ⟨_, _, hne⟩
  · cases he
  · omega
  · exact hne r rfl

/-- The first button is pressed, and while its value goes to the reader the second one is. -/
theorem latest_event_lost :
    ∃ es s, Run (Step (button_irqs (fun n ↦ 32 + n) fun n ↦ n)) State.init es s ∧ Uncopied es ∧
      s.key_val = 0x02 ∧ s.ev_press = 0 ∧ irq_key_poll s = 0 := by
  let table := button_irqs (fun n ↦ 32 + n) fun n ↦ n
  let b₁ : ButtonIrqDesc := ⟨32, 0, 0x01⟩
  let b₂ : ButtonIrqDesc := ⟨33, 1, 0x02⟩
  have hb₁ : b₁ ∈ table := by decide
  have hb₂ : b₂ ∈ table := by decide
  let s₁ := key_interrupt b₁ 0 State.init
  let s₂ := s₁.goto 0 .waiting
  let s₃ := s₂.goto 0 .copying
  let s₄ := s₃.goto 0 .clearing
  let s₅ := key_interrupt b₂ 0 s₄
  have h₁ : Run (Step table) State.init [.interrupt b₁ 0] s₁ :=
    .snoc .nil (.interrupt 0 hb₁)
  have h₂ := h₁.snoc (.call (r := 0) rfl)
  have h₃ := h₂.snoc (.wake (r := 0) rfl Int.one_ne_zero)
  have h₄ := h₃.snoc (.copy (r := 0) rfl)
  have h₅ := h₄.snoc (.interrupt (s := s₄) 0 hb₂)
  have h₆ := h₅.snoc (.clear (s := s₅) (r := 0) rfl)
  refine ⟨_, _, h₆, ?_, rfl, rfl, rfl⟩
  exact (uncopied_of_not rfl rfl).mpr (uncopied_interrupt b₂ 0)

/-- Nobody is between `copy_to_user` and the end of a read when an interrupt comes, and
`copy_to_user` does not fail. -/
def Masked (_ : List Event) (s : State) (e : Event) : Prop :=
  (∀ b pinval, e = .interrupt b pinval → ∀ r, s.readers r ≠ .clearing) ∧ ∀ r, e ≠ .fault r

-- While somebody is about to end a read, the latest key value has been copied.
theorem copied_step (hi : (∃ r, s.readers r = .clearing) → ¬ Uncopied es) (hs : Step table s e t)
    (hm : Masked es s e) : (∃ r, t.readers r = .clearing) → ¬ Uncopied (es ++ [e]) := by
  rintro ⟨r, hr⟩
  have hback : ∀ {q pc}, pc ≠ .clearing → (s.goto q pc).readers r = .clearing →
      s.readers r = .clearing := by
    intro q pc hpc h
    by_cases hq : r = q
    · rw [hq, State.goto_same] at h
      exact absurd h hpc
    · rwa [State.goto_of_ne s pc hq] at h
  cases hs with
  | interrupt pinval _ => exact absurd hr (hm.1 _ pinval rfl r)
  | copy _ => exact not_uncopied_copy _ _
  | fault _ => exact absurd rfl (hm.2 _)
  | einval _ _ => exact (uncopied_of_not rfl rfl).not.mpr (hi ⟨r, hr⟩)
  | _ => exact (uncopied_of_not rfl rfl).not.mpr (hi ⟨r, hback (by simp) hr⟩)

/-- With the interrupts shut out between the copy and the end of a read the latest event is kept. -/
theorem latestKept_of_masked (h : GuardedRun (Step table) Masked State.init es s) :
    KeepingRun (Step table) (LatestKept table) State.init es s := by
  refine latestKept_iff.mp (h.imp_of_invariant
    (fun es s ↦ (∃ r, s.readers r = .clearing) → ¬ Uncopied es) (fun _ ↦ not_since_nil)
    (fun es s e t ↦ copied_step) ?_)
  rintro es s e t hi hs _ r rfl
  cases hs with
  | clear hr => exact hi ⟨r, hr⟩

end Run

end OK210Drivers.Key
