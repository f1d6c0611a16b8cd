import Mathlib.Data.List.Induction
import Mathlib.Logic.Function.Basic

/-!
# The status of the LEDs

The driver answers reads from `led_status`, which it sets apart from the pins: `led_init` sets the pins
only, and an unknown command the status only.
-/

namespace OK210Drivers.Led

-- The table of the board; the platform's `S5PV210_GPH2` numbers the pins.
def led_info (S5PV210_GPH2 : Nat → Nat) : List Nat :=
  [S5PV210_GPH2 0, S5PV210_GPH2 1, S5PV210_GPH2 2, S5PV210_GPH2 3]

/-- The level of each pin (`true` is high) and the driver's status. -/
structure State where
  gpio : Nat → Bool
  led_status : BitVec 32

def gpio_set_value (gpio : Nat) (value : Bool) (s : State) : State :=
  { s with gpio := Function.update s.gpio gpio value }

-- `gpio_direction_output` sets the level as well.
def gpio_direction_output (gpio : Nat) (value : Bool) (s : State) : State :=
  gpio_set_value gpio value s

/-- `led_init`, with the levels of the pins before it. -/
def led_init (table : List Nat) (gpio : Nat → Bool) : State :=
  table.foldl (fun s gpio ↦ gpio_direction_output gpio false s) ⟨gpio, 0⟩

/-- `led_write`; when the copy from the user fails, `cmd` is what happens to be on the stack. -/
def led_write (table : List Nat) (cmd : BitVec 32) (s : State) : State :=
  let s :=
    if cmd = 1 then table.foldl (fun s gpio ↦ gpio_set_value gpio false s) s
    else if cmd = 0 then table.foldl (fun s gpio ↦ gpio_set_value gpio true s) s
    else s
  { s with led_status := cmd }

/-- `led_read`: what it returns and what it copies to the user. -/
def led_read (count : Nat) (s : State) : Nat × BitVec 32 := (count, s.led_status)

/-- The state after `led_init` and a history of commands. -/
def after (table : List Nat) (gpio : Nat → Bool) (cmds : List (BitVec 32)) : State :=
  cmds.foldl (fun s cmd ↦ led_write table cmd s) (led_init table gpio)

/-- All pins of the table have a level. -/
def AllAt (table : List Nat) (level : Bool) (s : State) : Prop := ∀ g ∈ table, s.gpio g = level

/-- What is read is 1 exactly if all pins are low, and 0 exactly if all are high. -/
def StatusReal (table : List Nat) (s : State) : Prop :=
  ∀ count, ((led_read count s).2 = 1 ↔ AllAt table false s) ∧
    ((led_read count s).2 = 0 ↔ AllAt table true s)

variable {table : List Nat} {gpio : Nat → Bool} {cmd : BitVec 32} {cmds : List (BitVec 32)} {s : State}

theorem foldl_set_value (value : Bool) (g : Nat) :
    (table.foldl (fun s gpio ↦ gpio_set_value gpio value s) s).gpio g =
      if g ∈ table then value else s.gpio g := by
  induction table generalizing s with
  | nil => simp
  | cons h table ih =>
    rw [List.foldl_cons, ih]
    by_cases hg : g ∈ table
    · rw [if_pos hg, if_pos (List.mem_cons_of_mem _ hg)]
    · rw [if_neg hg]
      by_cases hgh : g = h
      · rw [hgh, if_pos (List.mem_cons_self ..)]
        exact Function.update_self ..
      · rw [if_neg (by simp [hg, hgh])]
        exact Function.update_of_ne hgh ..

theorem foldl_set_status (value : Bool) :
    (table.foldl (fun s gpio ↦ gpio_set_value gpio value s) s).led_status = s.led_status := by
  induction table generalizing s with
  | nil => rfl
  | cons h table ih =>
    rw [List.foldl_cons, ih]
    rfl

theorem allAt_set (value : Bool) :
    AllAt table value (table.foldl (fun s gpio ↦ gpio_set_value gpio value s) s) := by
  intro g hg
  rw [foldl_set_value, if_pos hg]

theorem led_init_allAt : AllAt table false (led_init table gpio) := allAt_set false

theorem led_init_status : (led_init table gpio).led_status = 0 := foldl_set_status false

theorem led_write_one : AllAt table false (led_write table 1 s) := allAt_set false

theorem led_write_zero : AllAt table true (led_write table 0 s) := allAt_set true

-- An unknown command does not touch the pins.
theorem led_write_unknown (h1 : cmd ≠ 1) (h0 : cmd ≠ 0) : (led_write table cmd s).gpio = s.gpio := by
  unfold led_write
  rw [if_neg h1, if_neg h0]

theorem after_snoc : after table gpio (cmds ++ [cmd]) = led_write table cmd (after table gpio cmds) := by
  unfold after
  rw [List.foldl_append]
  rfl

/-- The pins are always at one level. -/
theorem allAt_after (cmds : List (BitVec 32)) :
    AllAt table false (after table gpio cmds) ∨ AllAt table true (after table gpio cmds) := by
  induction cmds using List.reverseRecOn with
  | nil => exact Or.inl led_init_allAt
  | append_singleton cmds cmd ih =>
    rw [after_snoc]
    by_cases h1 : cmd = 1
    · rw [h1]
      exact Or.inl led_write_one
    · by_cases h0 : cmd = 0
      · rw [h0]
        exact Or.inr led_write_zero
      · unfold AllAt at ih ⊢
        rwa [led_write_unknown h1 h0]

theorem not_allAt_both (hne : table ≠ []) (hlow : AllAt table false s) : ¬AllAt table true s := by
  intro hhigh
  obtain ⟨g, hg⟩ := List.exists_mem_of_ne_nil table hne
  have h := (hlow g hg).symm.trans (hhigh g hg)
  cases h

theorem allAt_nil (level : Bool) : AllAt [] level s := by
  intro g hg
  cases hg

theorem statusReal_write_one (hne : table ≠ []) : StatusReal table (led_write table 1 s) := by
  refine fun _ ↦ ⟨iff_of_true rfl led_write_one, iff_of_false ?_ (not_allAt_both hne led_write_one)⟩
  show (1 : BitVec 32) ≠ 0
  decide

theorem statusReal_write_zero (hne : table ≠ []) : StatusReal table (led_write table 0 s) := by
  refine fun _ ↦ ⟨iff_of_false ?_ fun hlow ↦ ?_, iff_of_true rfl led_write_zero⟩
  · show (0 : BitVec 32) ≠ 1
    decide
  · exact not_allAt_both hne hlow led_write_zero

-- A status other than 0 and 1 is not that of pins at one level.
theorem not_statusReal_of_unknown (h1 : s.led_status ≠ 1) (h0 : s.led_status ≠ 0)
    (h : AllAt table false s ∨ AllAt table true s) : ¬StatusReal table s := by
  intro hreal
  rcases h with h | h
  · exact h1 ((hreal 0).1.mpr h)
  · exact h0 ((hreal 0).2.mpr h)

/-- After any history of commands the status is that of the pins exactly if there are any pins and the
last command is 1 or 0. -/
theorem statusReal_iff (table : List Nat) (gpio : Nat → Bool) (cmds : List (BitVec 32)) :
    StatusReal table (after table gpio cmds) ↔
      table ≠ [] ∧ (cmds.getLast? = some 1 ∨ cmds.getLast? = some 0) := by
  by_cases hne : table = []
  · refine iff_of_false (fun hreal ↦ ?_) fun h ↦ h.1 hne
    rw [hne] at hreal
    have h1 := (hreal 0).1.mpr (allAt_nil false)
    rw [(hreal 0).2.mpr (allAt_nil true)] at h1
    exact absurd h1 (by decide)
  · rw [and_iff_right hne]
    induction cmds using List.reverseRecOn with
    | nil =>
      refine iff_of_false (fun hreal ↦ ?_) (by simp)
      exact not_allAt_both hne led_init_allAt ((hreal 0).2.mp led_init_status)
    | append_singleton cmds cmd _ =>
      rw [List.getLast?_concat, after_snoc]
      by_cases h1 : cmd = 1
      · rw [h1]
        exact iff_of_true (statusReal_write_one hne) (Or.inl rfl)
      · by_cases h0 : cmd = 0
        · rw [h0]
          exact iff_of_true (statusReal_write_zero hne) (Or.inr rfl)
        · refine iff_of_false (not_statusReal_of_unknown h1 h0 ?_) ?_
          · rw [← after_snoc]
            exact allAt_after _
          · rw [Option.some.injEq, Option.some.injEq]
            exact not_or.mpr ⟨h1, h0⟩

/-- After loading, all LEDs are lit and the status is 0; and command 5 is a status of its own. -/
theorem status_contradicts_pins :
    ¬StatusReal (led_info id) (after (led_info id) (fun _ ↦ true) []) ∧
      ¬StatusReal (led_info id) (after (led_info id) (fun _ ↦ true) [1, 5]) := by
  constructor
  · intro hreal
    have hhigh := (hreal 4).2.mp rfl 0 (by decide)
    revert hhigh
    decide
  · intro hreal
    have hone := (hreal 4).1.mpr fun g hg ↦ by
      revert g
      decide
    revert hone
    decide

end OK210Drivers.Led
