import Mathlib.Algebra.Group.Nat.Even
import OK210Drivers.Buttons.Driver

/-!
# Which keys end in the state of their pin

The timer is shared, so one expiration stands for all the edges since the one before, but it reports
only the button of the last edge.  What the others did in between goes unreported.
-/

open Library

namespace OK210Drivers.Buttons

open Key (ButtonIrqDesc)

-- The edges up to the last expiration, and those after it.
def record : List ButtonIrqDesc × List ButtonIrqDesc → Event →
    List ButtonIrqDesc × List ButtonIrqDesc
  | (old, new), .edge b => (old, new ++ [b])
  | (old, new), .expire => (old ++ new, [])

/-- The buttons of the edges that came before the timer last ran out. -/
def earlier (es : List Event) : List ButtonIrqDesc := (es.foldl record ([], [])).1

/-- The buttons of the edges that have come since. -/
def window (es : List Event) : List ButtonIrqDesc := (es.foldl record ([], [])).2

/-- With no timer pending, every key that has had an edge is in the state of its pin. -/
def Settled (table : Table) (es : List Event) (s : State) : Prop :=
  s.buttons_timer = false → ∀ b ∈ table.buttons, .edge b ∈ es →
    lastValue s.events b.key_val = some (keyValue (s.gpio b.pin))

/-- When the timer runs out, every button but the last one is back where it was when the timer last
ran out, and if it has moved since then it had moved before, too. -/
def OneMoved (table : Table) (es : List Event) (s : State) (e : Event) : Prop :=
  e = .expire → ∀ b ∈ table.buttons, s.irq_pd ≠ some b →
    Even ((window es).count b) ∧ (b ∈ window es → b ∈ earlier es)

section History

variable {es : List Event} {b : ButtonIrqDesc}

theorem history_append (e : Event) : (es ++ [e]).foldl record ([], []) =
    record (earlier es, window es) e := by
  rw [List.foldl_append]
  rfl

@[simp] theorem earlier_edge : earlier (es ++ [.edge b]) = earlier es := by
  rw [earlier, history_append]
  rfl

@[simp] theorem window_edge : window (es ++ [.edge b]) = window es ++ [b] := by
  rw [window, history_append]
  rfl

@[simp] theorem earlier_expire : earlier (es ++ [.expire]) = earlier es ++ window es := by
  rw [earlier, history_append]
  rfl

@[simp] theorem window_expire : window (es ++ [.expire]) = [] := by
  rw [window, history_append]
  rfl

theorem edge_mem_iff : .edge b ∈ es ↔ b ∈ earlier es ∨ b ∈ window es := by
  induction es using List.reverseRecOn with
  | nil => simp [earlier, window]
  | append_singleton es e ih =>
    rw [List.mem_append, ih]
    cases e with
    | edge a =>
      rw [earlier_edge, window_edge, List.mem_append, List.mem_singleton, List.mem_singleton,
        Event.edge.injEq, or_assoc]
    | expire => simp

end History

/-- The level a button had when the timer last ran out. -/
def levelBefore (es : List Event) (s : State) (b : ButtonIrqDesc) : Bool :=
  if Even ((window es).count b) then s.gpio b.pin else !s.gpio b.pin

/-- Each key was last reported at the level it had when the timer last ran out, if it had an edge
before. -/
structure Inv (table : Table) (es : List Event) (s : State) : Prop where
  reported : ∀ b ∈ table.buttons, lastValue s.events b.key_val =
    if b ∈ earlier es then some (keyValue (levelBefore es s b)) else none
  idle : s.buttons_timer = false → window es = []
  last : ∀ b, s.irq_pd = some b → b ∈ table.buttons ∧ (b ∈ earlier es ∨ b ∈ window es)

section Run

variable {table : Table} {es : List Event} {e : Event} {s t : State} {gpio : Nat → Bool}

theorem inv_init : Inv table [] (buttons_input_init gpio) where
  reported _ _ := rfl
  idle _ := rfl
  last b hb := by cases hb

theorem Inv.settled (h : Inv table es s) : Settled table es s := by
  intro htimer b hb hedge
  have hwin := h.idle htimer
  rcases edge_mem_iff.mp hedge with hold | hnew
  · rw [h.reported b hb, if_pos hold, levelBefore, hwin, List.count_nil, if_pos Even.zero]
  · rw [hwin] at hnew
    cases hnew

-- An edge turns the level of its button and no other.
theorem levelBefore_edge {a b : ButtonIrqDesc} (hne : a.pin = b.pin → a = b) :
    levelBefore (es ++ [.edge a])
      (key_interrupt a { s with gpio := Function.update s.gpio a.pin (!s.gpio a.pin) }) b =
    levelBefore es s b := by
  unfold levelBefore
  rw [window_edge, List.count_append, List.count_singleton]
  show (if _ then Function.update s.gpio a.pin (!s.gpio a.pin) b.pin
    else !Function.update s.gpio a.pin (!s.gpio a.pin) b.pin) = _
  by_cases hab : a = b
  · subst hab
    rw [Function.update_self, if_pos (beq_self_eq_true a)]
    by_cases hev : Even ((window es).count a)
    · rw [if_neg (by rwa [Nat.even_add_one, not_not]), if_pos hev, Bool.not_not]
    · rw [if_pos (by rwa [Nat.even_add_one]), if_neg hev]
  · have hpin : b.pin ≠ a.pin := by
      intro h
      exact hab (hne h.symm)
    have hcount : (if (a == b) = true then 1 else 0) = 0 := if_neg (by simpa using hab)
    rw [Function.update_of_ne hpin, hcount, Nat.add_zero]

-- What an expiration reports.
theorem lastValue_expire {a b : ButtonIrqDesc} (h : s.irq_pd = some a)
    (ht : buttons_timer_function { s with buttons_timer := false } = some t)
    (hne : a.key_val = b.key_val → a = b) :
    lastValue t.events b.key_val =
      if a = b then some (keyValue (s.gpio b.pin)) else lastValue s.events b.key_val := by
  rw [buttons_timer_function_some (s := { s with buttons_timer := false }) h,
    Option.some.injEq] at ht
  subst ht
  show lastValue (s.events ++ [(a.key_val, keyValue (s.gpio a.pin))]) b.key_val = _
  rw [lastValue_append]
  by_cases hab : a = b
  · rw [if_pos (by rw [hab]), if_pos hab, hab]
  · rw [if_neg (fun h ↦ hab (hne h)), if_neg hab]

-- An expiration that is not a crash has a button, and it changes the timer and the events only.
theorem expire_eq (ht : buttons_timer_function { s with buttons_timer := false } = some t) :
    ∃ a, s.irq_pd = some a ∧ t.gpio = s.gpio ∧ t.irq_pd = some a ∧ t.buttons_timer = false := by
  cases hpd : s.irq_pd with
  | none =>
    rw [buttons_timer_function] at ht
    simp [hpd] at ht
  | some a =>
    rw [buttons_timer_function_some (s := { s with buttons_timer := false }) hpd,
      Option.some.injEq] at ht
    subst ht
    exact ⟨a, rfl, rfl, hpd, rfl⟩

theorem inv_step (h : Inv table es s) (hs : Step table s e t) (hg : OneMoved table es s e) :
    Inv table (es ++ [e]) t := by
  cases hs with
  | @edge a ha =>
    refine ⟨fun b hb ↦ ?_, fun htimer ↦ (by cases htimer), fun b hb ↦ ?_⟩
    · rw [levelBefore_edge (table.pin_inj a ha b hb), earlier_edge]
      exact h.reported b hb
    · obtain rfl : a = b := Option.some.inj hb
      exact ⟨ha, by simp⟩
  | expire _ ht =>
    rcases expire_eq ht with ⟨a, hpd, hgpio, hpd', _⟩
    have ha := h.last a hpd
    refine ⟨fun b hb ↦ ?_, fun _ ↦ window_expire, fun b hb ↦ ?_⟩
    · have hlevel : levelBefore (es ++ [.expire]) t b = s.gpio b.pin := by
        rw [levelBefore, window_expire, List.count_nil, if_pos Even.zero, hgpio]
      rw [lastValue_expire hpd ht (table.key_inj a ha.1 b hb), hlevel, earlier_expire]
      by_cases hab : a = b
      · rw [if_pos hab, if_pos (List.mem_append.mpr (hab ▸ ha.2))]
      · rw [if_neg hab, h.reported b hb]
        rcases hg rfl b hb (by simpa [hpd] using hab) with ⟨hev, hmoved⟩
        by_cases hold : b ∈ earlier es
        · rw [if_pos hold, if_pos (List.mem_append_left _ hold), levelBefore, if_pos hev]
        · have hnew : b ∉ window es := fun hnew ↦ hold (hmoved hnew)
          rw [if_neg hold, if_neg (by simp [hold, hnew])]
    · rw [hpd'] at hb
      obtain rfl := Option.some.inj hb
      exact ⟨ha.1, by simpa using ha.2⟩

-- An expiration that leaves a button where it has not been reported goes wrong.
theorem oneMoved_of_settled (h : Inv table es s) (hs : Step table s e t)
    (hp : Settled table (es ++ [e]) t) : OneMoved table es s e := by
  rintro rfl b hb hne
  cases hs with
  | expire _ ht =>
    rcases expire_eq ht with ⟨a, hpd, hgpio, _, htimer⟩
    have ha := h.last a hpd
    have hab : a ≠ b := by
      rintro rfl
      exact hne hpd
    have hsame : b ∈ window es → lastValue s.events b.key_val = some (keyValue (s.gpio b.pin)) := by
      intro hnew
      have hval := hp htimer b hb (List.mem_append_left _ (edge_mem_iff.mpr (Or.inr hnew)))
      rwa [lastValue_expire hpd ht (table.key_inj a ha.1 b hb), if_neg hab, hgpio] at hval
    by_cases hnew : b ∈ window es
    · have hval := (h.reported b hb).symm.trans (hsame hnew)
      have hold : b ∈ earlier es := by
        by_contra hold
        rw [if_neg hold] at hval
        cases hval
      rw [if_pos hold, Option.some.injEq, keyValue_inj, levelBefore] at hval
      refine ⟨?_, fun _ ↦ hold⟩
      by_contra hev
      rw [if_neg hev] at hval
      cases hlevel : s.gpio b.pin <;> simp [hlevel] at hval
    · rw [List.count_eq_zero_of_not_mem hnew]
      exact ⟨Even.zero, fun hnew' ↦ absurd hnew' hnew⟩

/-- The keys end in the state of their pins throughout exactly in the runs in which, whenever the timer
runs out, only the last button has anything to report. -/
theorem settled_iff :
    GuardedRun (Step table) (OneMoved table) (buttons_input_init gpio) es s ↔
      KeepingRun (Step table) (Settled table) (buttons_input_init gpio) es s := by
  apply guardedRun_iff_keepingRun (Inv table) inv_init
  · exact fun es s hi ↦ hi.settled
  · exact fun es s e t hi hs hg ↦ inv_step hi hs hg
  · exact fun es s e t hi hs hp ↦ oneMoved_of_settled hi hs hp

end Run

-- The eight buttons, with pins and lines numbered in the order of the table.
def webee210 : Table where
  buttons := button_irqs (fun n ↦ n) (fun n ↦ n) (fun n ↦ 4 + n)
  pin_inj := by decide
  key_inj := by decide

/-- S1 is pressed and reported; then it is let go and S2 is pressed before the timer runs out, and
S1 stays reported as pressed. -/
theorem key_stays_pressed :
    ∃ es s b, Run (Step webee210) (buttons_input_init fun _ ↦ true) es s ∧ b ∈ webee210.buttons ∧
      .edge b ∈ es ∧ s.buttons_timer = false ∧ s.gpio b.pin = true ∧
      lastValue s.events b.key_val = some 1 := by
  let s₁ : ButtonIrqDesc := ⟨16, 0, KEY_A⟩
  let s₂ : ButtonIrqDesc := ⟨17, 1, KEY_B⟩
  have h₁ : s₁ ∈ webee210.buttons := by decide
  have h₂ : s₂ ∈ webee210.buttons := by decide
  have hr₁ : Run (Step webee210) (buttons_input_init fun _ ↦ true) [.edge s₁] _ :=
    .snoc .nil (.edge h₁)
  have hr₂ := hr₁.snoc (.expire rfl rfl)
  have hr₃ := hr₂.snoc (.edge h₁)
  have hr₄ := hr₃.snoc (.edge h₂)
  have hr₅ := hr₄.snoc (.expire rfl rfl)
  exact ⟨_, _, s₁, hr₅, h₁, by simp, rfl, rfl, rfl⟩

end OK210Drivers.Buttons
