import OK210Drivers.Library.Runs
import OK210Drivers.Server.Common

/-!
# The searches for a free slot

`accept_one` takes the first free slot of the table.  `accept_new_one` goes on from the slot of its last
call and around the end of the table.
-/

open Library

namespace OK210Drivers.Server

/-- `accept_new_one`, where `accept` returns `answer`: the static `ci_last` behind the call, and the
slot and the descriptors unless the process has ended. -/
def accept_new_one (isopen : Nat → Bool) (cd : Nat → Int) (ncons : Nat) (answer : Int)
    (ci_last : Nat) : Nat × Option (Nat × (Nat → Int)) :=
  let ci := freeFromCyclic isopen ncons ncons ci_last
  (ci, if answer < 0 then none else some (ci, Function.update cd ci answer))

/-- A call that has returned: with which table, and which slot. -/
inductive SlotCall
  | accept_one (isopen : Nat → Bool) (ci : Nat)
  | accept_new_one (isopen : Nat → Bool) (ci : Nat)

/-- Calls for a table of `ncons` slots.  The tables and the descriptors are the caller's. -/
inductive SlotStep (ncons : Nat) : Nat → SlotCall → Nat → Prop
  | accept_one {ci_last isopen cd answer ci cd'} :
      accept_one isopen cd ncons answer = some (ci, cd') →
      SlotStep ncons ci_last (.accept_one isopen ci) ci_last
  | accept_new_one {ci_last ci_last' isopen cd answer ci cd'} :
      accept_new_one isopen cd ncons answer ci_last = (ci_last', some (ci, cd')) →
      SlotStep ncons ci_last (.accept_new_one isopen ci) ci_last'

def SlotCall.newSlot? : SlotCall → Option Nat
  | .accept_one _ _ => none
  | .accept_new_one _ ci => some ci

/-- The slot that the last call of `accept_new_one` returned, 0 at first. -/
def lastNewSlot (es : List SlotCall) : Nat := (lastSome SlotCall.newSlot? es).getD 0

/-- A call that has a free slot finds the one it should. -/
def FindsFree (ncons : Nat) (es : List SlotCall) : SlotCall → Prop
  | .accept_one isopen ci =>
    (∃ j < ncons, isopen j = false) → IsLeast {j | j < ncons ∧ isopen j = false} ci
  | .accept_new_one isopen ci =>
    (∃ j < ncons, isopen j = false) → ci < ncons ∧ IsFirstFrom isopen ncons (lastNewSlot es) ci

variable {ncons ci_last ci_last' : Nat} {es : List SlotCall} {e : SlotCall} {isopen : Nat → Bool}

theorem isLeast_firstFree (hfree : ∃ j < ncons, isopen j = false) :
    IsLeast {j | j < ncons ∧ isopen j = false} (firstFree isopen ncons) := by
  obtain ⟨j, hj, hjfree⟩ := hfree
  have hle {i : Nat} (hi : isopen i = false) : firstFree isopen ncons ≤ i := by
    by_contra hlt
    have hused := used_of_lt_firstFree (show i < firstFree isopen ncons by omega)
    rw [hi] at hused
    cases hused
  have hlt : firstFree isopen ncons < ncons := Nat.lt_of_le_of_lt (hle hjfree) hj
  exact ⟨⟨hlt, firstFree_free hlt⟩, fun i hi ↦ hle hi.2⟩

theorem lastNewSlot_snoc :
    lastNewSlot (es ++ [e]) = e.newSlot?.getD (lastNewSlot es) := by
  unfold lastNewSlot
  rw [lastSome_snoc]
  cases e with
  | accept_one _ _ => rfl
  | accept_new_one _ ci => rfl

/-- The static variable is inside of the table and holds the slot of the last call. -/
structure LastInTable (ncons : Nat) (es : List SlotCall) (ci_last : Nat) : Prop where
  lt : ci_last < ncons
  eq : ci_last = lastNewSlot es

theorem lastInTable_step (h : LastInTable ncons es ci_last) (hs : SlotStep ncons ci_last e ci_last') :
    LastInTable ncons (es ++ [e]) ci_last' := by
  cases hs with
  | accept_one _ =>
    refine ⟨h.lt, ?_⟩
    rw [lastNewSlot_snoc]
    exact h.eq
  | @accept_new_one _ isopen cd answer ci cd' hcall =>
    unfold accept_new_one at hcall
    rw [Prod.mk.injEq] at hcall
    obtain ⟨rfl, hret⟩ := hcall
    split at hret
    · cases hret
    · obtain ⟨rfl, _⟩ := Prod.mk.inj (Option.some.inj hret)
      refine ⟨freeFromCyclic_lt h.lt, ?_⟩
      rw [lastNewSlot_snoc]
      rfl

theorem findsFree_step (h : LastInTable ncons es ci_last) (hs : SlotStep ncons ci_last e ci_last') :
    FindsFree ncons es e := by
  cases hs with
  | @accept_one isopen cd answer ci cd' hcall =>
    unfold accept_one at hcall
    split at hcall
    · cases hcall
    · obtain ⟨rfl, _⟩ := Prod.mk.inj (Option.some.inj hcall)
      exact isLeast_firstFree
  | @accept_new_one _ isopen cd answer ci cd' hcall =>
    unfold accept_new_one at hcall
    have hret := (Prod.mk.inj hcall).2
    split at hret
    · cases hret
    · obtain ⟨rfl, _⟩ := Prod.mk.inj (Option.some.inj hret)
      intro hfree
      refine ⟨freeFromCyclic_lt h.lt, ?_⟩
      rw [← h.eq]
      exact isFirstFrom_freeFromCyclic h.lt hfree

theorem accept_one_returns {cd : Nat → Int} {answer : Int} (h : 0 ≤ answer) :
    accept_one isopen cd ncons answer =
      some (firstFree isopen ncons, Function.update cd (firstFree isopen ncons) answer) := by
  rw [accept_one, if_neg (not_lt.mpr h)]

theorem accept_new_one_returns {cd : Nat → Int} {answer : Int} (h : 0 ≤ answer) :
    accept_new_one isopen cd ncons answer ci_last =
      (freeFromCyclic isopen ncons ncons ci_last,
        some (freeFromCyclic isopen ncons ncons ci_last,
          Function.update cd (freeFromCyclic isopen ncons ncons ci_last) answer)) := by
  rw [accept_new_one, if_neg (not_lt.mpr h)]

/-- After any calls, a call that has a free slot finds it, and `ci_last` stays inside of the table,
whether there is one or not.  Any call may come next, with any table, and returns when `accept`
succeeds; `accept_one` needs a free slot for it, as it stores the descriptor in the slot it finds. -/
theorem slot_calls_find_free (hncons : 1 ≤ ncons) (hr : Run (SlotStep ncons) 0 es ci_last) :
    (∀ e ci_last', SlotStep ncons ci_last e ci_last' → FindsFree ncons es e ∧ ci_last' < ncons) ∧
    ∀ (isopen : Nat → Bool) (cd : Nat → Int) (answer : Int),
      (accept_new_one isopen cd ncons answer ci_last).1 < ncons ∧
      (0 ≤ answer →
        (∃ ci, accept_new_one isopen cd ncons answer ci_last =
          (ci, some (ci, Function.update cd ci answer))) ∧
        ((∃ j < ncons, isopen j = false) →
          ∃ ci, accept_one isopen cd ncons answer = some (ci, Function.update cd ci answer))) := by
  have h : LastInTable ncons es ci_last :=
    hr.invariant (LastInTable ncons) ⟨hncons, rfl⟩ fun _ _ _ _ _ hi hs ↦ lastInTable_step hi hs
  constructor
  · intro e ci_last' hs
    exact ⟨findsFree_step h hs, (lastInTable_step h hs).lt⟩
  · intro isopen cd answer
    refine ⟨freeFromCyclic_lt h.lt, fun ha ↦ ⟨⟨_, accept_new_one_returns ha⟩, fun _ ↦ ?_⟩⟩
    exact ⟨_, accept_one_returns ha⟩

-- In a table of two slots, the second call of `accept_new_one` goes on behind the slot of the first one,
-- which is taken; `accept_one` in between takes the first free slot of its own table.
theorem slot_calls_find_second :
    (1 ≤ 2 ∧ Run (SlotStep 2) 0
      [.accept_new_one (fun _ ↦ false) 0, .accept_one (fun j ↦ j == 0) 1] 0) ∧
      FindsFree 2 [.accept_new_one (fun _ ↦ false) 0] (.accept_one (fun j ↦ j == 0) 1) ∧
      FindsFree 2 [.accept_new_one (fun _ ↦ false) 0, .accept_one (fun j ↦ j == 0) 1]
        (.accept_new_one (fun j ↦ j == 0) 1) ∧
      ∃ ci, accept_one (fun j ↦ j == 0) (fun _ ↦ 0) 2 6 =
        some (ci, Function.update (fun _ ↦ 0) ci 6) := by
  have h₁ : Run (SlotStep 2) 0 [.accept_new_one (fun _ ↦ false) 0] 0 :=
    .snoc .nil (@SlotStep.accept_new_one 2 0 0 _ (fun _ ↦ 0) 5 0 _ rfl)
  have h₂ : SlotStep 2 0 (.accept_one (fun j ↦ j == 0) 1) 0 :=
    @SlotStep.accept_one 2 0 _ (fun _ ↦ 0) 6 1 _ rfl
  have h₃ : SlotStep 2 0 (.accept_new_one (fun j ↦ j == 0) 1) 1 :=
    @SlotStep.accept_new_one 2 0 1 _ (fun _ ↦ 0) 7 1 _ rfl
  have hone := (slot_calls_find_free (by decide) h₁).1 _ _ h₂
  have hnew := (slot_calls_find_free (by decide) (h₁.snoc h₂)).1 _ _ h₃
  have hret := ((slot_calls_find_free (by decide) h₁).2 (fun j ↦ j == 0) (fun _ ↦ 0) 6).2 (by decide)
  exact ⟨⟨by decide, h₁.snoc h₂⟩, hone.1, hnew.1, hret.2 ⟨1, by decide⟩⟩

end OK210Drivers.Server
