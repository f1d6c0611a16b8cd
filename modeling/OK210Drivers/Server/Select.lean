import OK210Drivers.Server.Common

/-!
# The select() server

`lab53_server_select.c`.  A state is taken at one of four places of the main loop; what `select`,
`accept` and `recv` answer comes with the step.  `fds` are the descriptors the process has open,
which the kernel looks at when it chooses the next one.
-/

open Library

namespace OK210Drivers.Server.Select

/-- The places of the main loop: its head, the call of `select`, the test of the listening socket and
turn `ci` of the loop over the connections. -/
inductive Pc
  | top
  | calling
  | listening
  | serving (ci : Nat)
  deriving DecidableEq

structure State where
  sd : Int
  ncons : Nat
  fdset : Finset Int
  testset : Finset Int
  fdmax : Int
  nopen : Int
  isopen : Nat → Bool
  cd : Nat → Int
  fds : Finset Int
  pc : Pc

/-- `main` up to the loop.  `isopen` and `cd` are given as `malloc` returns them, `fds` are the open
descriptors before the listening socket `sd` is opened. -/
def main_init (ncons : Nat) (sd : Int) (isopen : Nat → Bool) (cd : Nat → Int) (fds : Finset Int) :
    Option State :=
  if ncons > FD_SETSIZE then none
  else some {
    sd := sd
    ncons := ncons
    fdset := {sd}
    testset := ∅
    fdmax := 0
    nopen := 0
    isopen := fun ci ↦ if ci < ncons then false else isopen ci
    cd := cd
    fds := insert sd fds
    pc := .top }

def terminate_client (s : State) (ci : Nat) : State :=
  let s := { s with fds := s.fds.erase (s.cd ci) }
  let s := { s with isopen := Function.update s.isopen ci false }
  let s := { s with fdset := s.fdset.erase (s.cd ci) }
  let s := { s with nopen := s.nopen - 1 }
  if s.cd ci = s.fdmax then { s with fdmax := get_max_fd s.fdmax s.isopen s.cd s.ncons } else s

/-- From the head of the loop to the call of `select`. -/
def enter (s : State) : State :=
  let s := { s with testset := s.fdset }
  let s := if s.sd > s.fdmax then { s with fdmax := s.sd } else s
  { s with pc := .calling }

/-- The branch that accepts a connection, where `accept` returns `fd`; with the slot it takes. -/
def accept_connection (s : State) (fd : Int) : Option (Nat × State) := do
  let s := { s with fds := insert fd s.fds }
  let (ci, cd) ← accept_one s.isopen s.cd s.ncons fd
  let s := { s with cd := cd }
  let s := { s with isopen := Function.update s.isopen ci true }
  let s := { s with fdset := insert (s.cd ci) s.fdset }
  let s := { s with nopen := s.nopen + 1 }
  let s := if s.cd ci > s.fdmax then { s with fdmax := s.cd ci } else s
  some (ci, { s with pc := .serving 0 })

/-- Whether turn `ci` of the second loop finds a connection to serve. -/
def readable (s : State) (ci : Nat) : Bool :=
  s.isopen ci && decide (s.cd ci ∈ s.testset)

/-- Turn `ci` of the second loop on a connection that is served, where `recv` returns `count`. -/
def serve (s : State) (ci : Nat) (count : Int) : State :=
  let s := if handle_client count ≠ 0 then terminate_client s ci else s
  { s with pc := .serving (ci + 1) }

/-- What a step does that others can see: the calls of `select` (with what it reports ready),
`accept` and `handle_client`, each with the slot and the descriptor it is for. -/
inductive Event
  | enter
  | select (ready : Finset Int)
  | accept (ci : Nat) (fd : Int)
  | noAccept
  | handle (ci : Nat) (fd : Int) (count : Int)
  | pass
  | wrap
  deriving DecidableEq

/-- One step of the main loop.  `acc` says which descriptors `accept` may return when those in the
set are open. -/
inductive Step (acc : Finset Int → Int → Prop) : State → Event → State → Prop
  | enter {s} (hpc : s.pc = .top) : Step acc s .enter (enter s)
  | select {s ready} (hpc : s.pc = .calling) (hr : ready ⊆ s.testset) :
      Step acc s (.select ready) { s with testset := ready, pc := .listening }
  | accept {s fd ci t} (hpc : s.pc = .listening) (hsd : s.sd ∈ s.testset)
      (hn : s.nopen < s.ncons) (hacc : acc s.fds fd) (ha : accept_connection s fd = some (ci, t)) :
      Step acc s (.accept ci fd) t
  | noAccept {s} (hpc : s.pc = .listening) (h : ¬(s.sd ∈ s.testset ∧ s.nopen < s.ncons)) :
      Step acc s .noAccept { s with pc := .serving 0 }
  | handle {s ci count} (hpc : s.pc = .serving ci) (hci : ci < s.ncons) (hr : readable s ci = true) :
      Step acc s (.handle ci (s.cd ci) count) (serve s ci count)
  | pass {s ci} (hpc : s.pc = .serving ci) (hci : ci < s.ncons) (hr : readable s ci = false) :
      Step acc s .pass { s with pc := .serving (ci + 1) }
  | wrap {s ci} (hpc : s.pc = .serving ci) (hci : ¬ci < s.ncons) :
      Step acc s .wrap { s with pc := .top }

/-- `accept` returns a descriptor below `FD_SETSIZE` that the process does not have open. -/
def AcceptBelow (fds : Finset Int) (fd : Int) : Prop :=
  0 ≤ fd ∧ fd < FD_SETSIZE ∧ fd ∉ fds

/-! ## What the operations do -/

theorem accept_connection_eq {s : State} {fd : Int} {ci : Nat} {t : State}
    (h : accept_connection s fd = some (ci, t)) :
    ci = firstFree s.isopen s.ncons ∧ t = { s with
      fds := insert fd s.fds
      cd := Function.update s.cd ci fd
      isopen := Function.update s.isopen ci true
      fdset := insert fd s.fdset
      nopen := s.nopen + 1
      fdmax := max fd s.fdmax
      pc := .serving 0 } := by
  simp only [accept_connection, accept_one] at h
  split at h
  next => cases h
  next =>
    simp only [Option.bind_eq_bind, Option.bind_some, Option.some.injEq, Prod.mk.injEq,
      Function.update_self] at h
    rcases h with ⟨rfl, rfl⟩
    refine ⟨rfl, ?_⟩
    split
    next hgt => simp only [max_eq_left hgt.le]
    next hgt => simp only [max_eq_right (not_lt.mp hgt)]

theorem terminate_client_eq (s : State) (ci : Nat) :
    ∃ m, s.fdmax ≤ m ∧ terminate_client s ci = { s with
      fds := s.fds.erase (s.cd ci)
      isopen := Function.update s.isopen ci false
      fdset := s.fdset.erase (s.cd ci)
      nopen := s.nopen - 1
      fdmax := m } := by
  simp only [terminate_client]
  split
  next => exact ⟨_, le_get_max_fd .., rfl⟩
  next => exact ⟨s.fdmax, le_rfl, rfl⟩

theorem enter_eq (s : State) :
    enter s = { s with testset := s.fdset, fdmax := max s.sd s.fdmax, pc := .calling } := by
  simp only [enter]
  split
  next hgt => simp only [max_eq_left hgt.le]
  next hgt => simp only [max_eq_right (not_lt.mp hgt)]

end OK210Drivers.Server.Select
