import OK210Drivers.Library.Slots
import Mathlib.Data.Finset.Basic

/-!
# The fork() server

`lab53_server_fork.c`: a child for each connection.  `cleanupkids` is the handler of SIGCHLD and may
start wherever the main loop is; the loop goes on when it has returned.  Children exit at any moment,
also between two turns of the handler.  A child stays in the process group of the server.
-/

open Library

namespace OK210Drivers.Server.Fork

/-- The places of the main loop: the test of `nopen`, the call of `cleanupkids`, the search and the call
of `accept` in `accept_one`, and the statements that follow, in their order.  At `refused` and, when the
stored `pid` is negative, at `forked` the process is on its way through `DEATH`: the handler may still
run, but the loop goes no further. -/
inductive Pc
  | top
  | cleaning
  | searching
  | accepting (ci : Nat)
  | refused
  | opening (ci : Nat)
  | counting (ci : Nat)
  | forking (ci : Nat)
  | forked (ci : Nat)
  deriving DecidableEq

/-- `kids` are the children that have not been reaped, `zombies` those of them that have exited, and
`sweep` is the turn of `cleanupkids` when it runs. -/
structure State where
  ncons : Nat
  nopen : Int
  isopen : Nat → Bool
  cd : Nat → Int
  pid : Nat → Int
  sweep : Option Nat
  pgrp : Int
  kids : Finset Int
  zombies : Finset Int
  pc : Pc

/-- `main` up to the loop, with the arrays as `malloc` returns them. -/
def main_init (ncons : Nat) (pgrp : Int) (isopen : Nat → Bool) (cd pid : Nat → Int) : State where
  ncons := ncons
  nopen := 0
  isopen := fun ci ↦ if ci < ncons then false else isopen ci
  cd := cd
  pid := pid
  sweep := none
  pgrp := pgrp
  kids := ∅
  zombies := ∅
  pc := .top

/-- Whether `waitpid (p, ..)` waits for the child `q` of a process in the group `pgrp`. -/
def waits_for (pgrp p q : Int) : Bool :=
  if 0 < p then decide (q = p)
  else if p = 0 ∨ p = -1 then true
  else decide (-p = pgrp)

/-- What `waitpid (p, &status, WNOHANG)` may return. -/
def waitpid (s : State) (p ret : Int) : Prop :=
  if ∃ q ∈ s.zombies, waits_for s.pgrp p q = true then
    ret ∈ s.zombies ∧ waits_for s.pgrp p ret = true
  else if ∃ q ∈ s.kids, waits_for s.pgrp p q = true then ret = 0
  else ret = -1

instance (s : State) (p ret : Int) : Decidable (waitpid s p ret) := by
  unfold waitpid
  infer_instance

/-- The turn of `cleanupkids` for an open slot, where `waitpid` returns `pid_test`. -/
def cleanupkids_turn (s : State) (ci : Nat) (pid_test : Int) : State :=
  let s := { s with sweep := some (ci + 1) }
  if pid_test ≤ 0 then s
  else
    let s := { s with kids := s.kids.erase pid_test, zombies := s.zombies.erase pid_test }
    let s := { s with isopen := Function.update s.isopen ci false }
    { s with nopen := s.nopen - 1 }

/-- What a step does that others can see.  `wait` is a call of `waitpid` in turn `ci`, with the
descriptor that is closed if a child is reaped; `fork` has the descriptor that the child serves. -/
inductive Event
  | exit (q : Int)
  | signal
  | wait (ci : Nat) (fd pid_test : Int)
  | accept (ci : Nat) (fd : Int)
  | fork (ci : Nat) (fd q : Int)
  | tau
  deriving DecidableEq

inductive Step : State → Event → State → Prop
  -- the children and the handler
  | exit {s q} (hq : q ∈ s.kids) (hz : q ∉ s.zombies) :
      Step s (.exit q) { s with zombies := insert q s.zombies }
  | signal {s} (hm : s.sweep = none) : Step s .signal { s with sweep := some 0 }
  | skip {s ci} (hs : s.sweep = some ci) (hci : ci < s.ncons) (ho : s.isopen ci = false) :
      Step s .tau { s with sweep := some (ci + 1) }
  | wait {s ci pid_test} (hs : s.sweep = some ci) (hci : ci < s.ncons) (ho : s.isopen ci = true)
      (hw : waitpid s (s.pid ci) pid_test) :
      Step s (.wait ci (s.cd ci) pid_test) (cleanupkids_turn s ci pid_test)
  | finish {s ci} (hs : s.sweep = some ci) (hci : ¬ci < s.ncons) :
      Step s .tau { s with sweep := none }
  -- the main loop
  | full {s} (hm : s.sweep = none) (hpc : s.pc = .top) (hn : s.nopen = s.ncons) :
      Step s .tau { s with pc := .cleaning }
  | room {s} (hm : s.sweep = none) (hpc : s.pc = .top) (hn : s.nopen ≠ s.ncons) :
      Step s .tau { s with pc := .searching }
  | clean {s} (hm : s.sweep = none) (hpc : s.pc = .cleaning) :
      Step s .tau { s with sweep := some 0, pc := .top }
  | search {s} (hm : s.sweep = none) (hpc : s.pc = .searching) :
      Step s .tau { s with pc := .accepting (firstFree s.isopen s.ncons) }
  | accept {s ci fd} (hm : s.sweep = none) (hpc : s.pc = .accepting ci) (hfd : 0 ≤ fd) :
      Step s (.accept ci fd) { s with cd := Function.update s.cd ci fd, pc := .opening ci }
  | refuse {s ci} (hm : s.sweep = none) (hpc : s.pc = .accepting ci) :
      Step s .tau { s with cd := Function.update s.cd ci (-1), pc := .refused }
  | mark {s ci} (hm : s.sweep = none) (hpc : s.pc = .opening ci) :
      Step s .tau { s with isopen := Function.update s.isopen ci true, pc := .counting ci }
  | count {s ci} (hm : s.sweep = none) (hpc : s.pc = .counting ci) :
      Step s .tau { s with nopen := s.nopen + 1, pc := .forking ci }
  | fork {s ci q} (hm : s.sweep = none) (hpc : s.pc = .forking ci) (hpos : 0 < q)
      (hnew : q ∉ s.kids) :
      Step s (.fork ci (s.cd ci) q)
        { s with pid := Function.update s.pid ci q, kids := insert q s.kids, pc := .forked ci }
  | fork_fails {s ci} (hm : s.sweep = none) (hpc : s.pc = .forking ci) :
      Step s .tau { s with pid := Function.update s.pid ci (-1), pc := .forked ci }
  | parent {s ci} (hm : s.sweep = none) (hpc : s.pc = .forked ci) (hpos : 0 < s.pid ci) :
      Step s .tau { s with pc := .top }

/-- The slot that is marked open and holds no child's pid: it is not stored yet, or `fork` has failed. -/
def window (s : State) : Option Nat :=
  match s.pc with
  | .counting ci => some ci
  | .forking ci => some ci
  | .forked ci => if s.pid ci < 0 then some ci else none
  | _ => none

/-! ## What the operations do -/

theorem window_top {s : State} (hpc : s.pc = .top) : window s = none := by
  rw [window, hpc]

theorem window_opening {s : State} {ci : Nat} (hpc : s.pc = .opening ci) : window s = none := by
  rw [window, hpc]

theorem window_counting {s : State} {ci : Nat} (hpc : s.pc = .counting ci) : window s = some ci := by
  rw [window, hpc]

theorem window_forking {s : State} {ci : Nat} (hpc : s.pc = .forking ci) : window s = some ci := by
  rw [window, hpc]

theorem window_forked_neg {s : State} {ci : Nat} (hpc : s.pc = .forked ci) (h : s.pid ci < 0) :
    window s = some ci := by
  rw [window, hpc]
  exact if_pos h

theorem window_forked_pos {s : State} {ci : Nat} (hpc : s.pc = .forked ci) (h : 0 < s.pid ci) :
    window s = none := by
  rw [window, hpc]
  exact if_neg (not_lt.mpr h.le)

theorem waits_for_pos {pgrp p q : Int} (hp : 0 < p) : waits_for pgrp p q = true ↔ q = p := by
  rw [waits_for, if_pos hp, decide_eq_true_eq]

/-- A positive result of `waitpid` is the number of a child that has exited. -/
theorem waitpid_pos {s : State} {p ret : Int} (h : waitpid s p ret) (hret : 0 < ret) :
    ret ∈ s.zombies ∧ waits_for s.pgrp p ret = true := by
  unfold waitpid at h
  split at h
  next => exact h
  next =>
    split at h
    next => omega
    next => omega

/-- When a child that `waitpid` waits for has exited, one is reaped. -/
theorem waitpid_reaps {s : State} {p ret q : Int} (h : waitpid s p ret) (hq : q ∈ s.zombies)
    (hw : waits_for s.pgrp p q = true) : ret ∈ s.zombies := by
  unfold waitpid at h
  rw [if_pos ⟨q, hq, hw⟩] at h
  exact h.1

theorem cleanupkids_turn_neg {s : State} {ci : Nat} {pid_test : Int} (h : pid_test ≤ 0) :
    cleanupkids_turn s ci pid_test = { s with sweep := some (ci + 1) } := by
  rw [cleanupkids_turn, if_pos h]

theorem cleanupkids_turn_pos {s : State} {ci : Nat} {pid_test : Int} (h : 0 < pid_test) :
    cleanupkids_turn s ci pid_test = { s with
      sweep := some (ci + 1)
      kids := s.kids.erase pid_test
      zombies := s.zombies.erase pid_test
      isopen := Function.update s.isopen ci false
      nopen := s.nopen - 1 } := by
  rw [cleanupkids_turn, if_neg (not_le.mpr h)]

end OK210Drivers.Server.Fork
