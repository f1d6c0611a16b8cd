import OK210Drivers.Server.Select

/-!
# The poll() server

`lab53_server_poll.c`.  The main loop has the places of the select() server's.  Entry 0 of `ufds` is
the listening socket's, the clients have the entries from 1 on; what lies behind the end of the arrays
is arbitrary, like what `malloc` leaves in `cd`.
-/

open Library

namespace OK210Drivers.Server.Poll

open Select (Pc)

def POLLIN : Nat := 1

structure PollFd where
  fd : Int
  events : Nat
  revents : Nat
  deriving DecidableEq

structure State where
  sd : Int
  ncons : Nat
  ufds : Nat → PollFd
  fdmax : Int
  nopen : Int
  isopen : Nat → Bool
  cd : Nat → Int
  fds : Finset Int
  pc : Pc

/-- The entries allocated in each of the arrays. -/
def entries (ncons : Nat) : Nat := ncons + 1 + 8

/-- `main` up to the loop, where `get_socket` returns `sd`.  `fds` are the descriptors open before. -/
def main_init (ncons : Nat) (sd : Int) (isopen : Nat → Bool) (cd : Nat → Int) (ufds : Nat → PollFd)
    (fds : Finset Int) : Option State :=
  if sd < 0 then none
  else some {
    sd := sd
    ncons := ncons
    ufds := fun ci ↦
      if ci = 0 then { fd := sd, events := POLLIN, revents := 0 }
      else if ci < entries ncons then { fd := -1, events := 0, revents := 0 }
      else ufds ci
    fdmax := 0
    nopen := 0
    isopen := fun ci ↦ if ci < entries ncons then false else isopen ci
    cd := cd
    fds := insert sd fds
    pc := .top }

def terminate_client (s : State) (ci : Nat) : State :=
  let s := { s with fds := s.fds.erase (s.cd ci) }
  let s := { s with isopen := Function.update s.isopen ci false }
  let s := { s with ufds := Function.update s.ufds ci { s.ufds ci with fd := -1, events := 0 } }
  let s := { s with nopen := s.nopen - 1 }
  if s.cd ci = s.fdmax then { s with fdmax := get_max_fd s.fdmax s.isopen s.cd s.ncons } else s

/-- From the head of the loop to the call of `poll`. -/
def enter (s : State) : State :=
  let s := if s.sd > s.fdmax then { s with fdmax := s.sd } else s
  { s with pc := .calling }

/-- What `poll` does to the `nfds` entries it is given: an entry with a negative descriptor is not
looked at and has its `revents` cleared. -/
def poll (ufds : Nat → PollFd) (nfds : Int) (revents : Int → Nat) (i : Nat) : PollFd :=
  if (i : Int) < nfds then
    { ufds i with revents := if (ufds i).fd < 0 then 0 else revents (ufds i).fd }
  else ufds i

/-- The branch that accepts a connection, where `accept` returns `fd`; with the slot it takes. -/
def accept_connection (s : State) (fd : Int) : Option (Nat × State) := do
  let s := { s with isopen := Function.update s.isopen 0 true }
  let s := { s with fds := insert fd s.fds }
  let (ci, cd) ← accept_one s.isopen s.cd s.ncons fd
  let s := { s with cd := cd }
  let s := { s with isopen := Function.update s.isopen ci true }
  let s := { s with
    ufds := Function.update s.ufds ci { s.ufds ci with fd := s.cd ci, events := POLLIN } }
  let s := { s with nopen := s.nopen + 1 }
  let s := if s.cd ci > s.fdmax then { s with fdmax := s.cd ci } else s
  some (ci, { s with pc := .serving 1 })

-- `revents && POLLIN` is a logical and: any bit counts.
def reported (s : State) (ci : Nat) : Bool :=
  decide ((s.ufds ci).revents ≠ 0) && decide (POLLIN ≠ 0)

/-- Whether turn `ci` of the second loop finds a connection to serve. -/
def readable (s : State) (ci : Nat) : Bool :=
  s.isopen ci && reported s ci

/-- Turn `ci` of the second loop on a connection that is served, where `recv` returns `count`. -/
def serve (s : State) (ci : Nat) (count : Int) : State :=
  let s := if handle_client count ≠ 0 then terminate_client s ci else s
  { s with pc := .serving (ci + 1) }

/-- What a step does that others can see: `poll` comes with the bits it reports for a descriptor. -/
inductive Event
  | enter
  | poll (revents : Int → Nat)
  | accept (ci : Nat) (fd : Int)
  | noAccept
  | handle (ci : Nat) (fd : Int) (count : Int)
  | pass
  | wrap

/-- One step of the main loop, in which `poll` succeeds.  `acc` says which descriptors `accept` may
return when those in the set are open. -/
inductive Step (acc : Finset Int → Int → Prop) : State → Event → State → Prop
  | enter {s} (hpc : s.pc = .top) : Step acc s .enter (enter s)
  | poll {s revents} (hpc : s.pc = .calling) :
      Step acc s (.poll revents)
        { s with ufds := poll s.ufds (s.fdmax + 1) revents, pc := .listening }
  | accept {s fd ci t} (hpc : s.pc = .listening) (hr : reported s 0 = true)
      (hn : s.nopen < s.ncons) (hacc : acc s.fds fd) (ha : accept_connection s fd = some (ci, t)) :
      Step acc s (.accept ci fd) t
  | noAccept {s} (hpc : s.pc = .listening) (h : ¬(reported s 0 = true ∧ s.nopen < s.ncons)) :
      Step acc s .noAccept { s with pc := .serving 1 }
  | handle {s ci count} (hpc : s.pc = .serving ci) (hci : ci < s.ncons + 1)
      (hr : readable s ci = true) : Step acc s (.handle ci (s.cd ci) count) (serve s ci count)
  | pass {s ci} (hpc : s.pc = .serving ci) (hci : ci < s.ncons + 1) (hr : readable s ci = false) :
      Step acc s .pass { s with pc := .serving (ci + 1) }
  | wrap {s ci} (hpc : s.pc = .serving ci) (hci : ¬ci < s.ncons + 1) :
      Step acc s .wrap { s with pc := .top }

/-! ## What the operations do -/

theorem reported_iff {s : State} {ci : Nat} : reported s ci = true ↔ (s.ufds ci).revents ≠ 0 := by
  simp [reported, POLLIN]

theorem readable_iff {s : State} {ci : Nat} :
    readable s ci = true ↔ s.isopen ci = true ∧ (s.ufds ci).revents ≠ 0 := by
  rw [readable, Bool.and_eq_true, reported_iff]

@[simp] theorem poll_fd (ufds : Nat → PollFd) (nfds : Int) (revents : Int → Nat) (i : Nat) :
    (poll ufds nfds revents i).fd = (ufds i).fd := by
  unfold poll
  split
  next => rfl
  next => rfl

theorem accept_connection_eq {s : State} {fd : Int} {ci : Nat} {t : State}
    (h : accept_connection s fd = some (ci, t)) :
    ci = firstFree (Function.update s.isopen 0 true) s.ncons ∧ t = { s with
      fds := insert fd s.fds
      cd := Function.update s.cd ci fd
      isopen := Function.update (Function.update s.isopen 0 true) ci true
      ufds := Function.update s.ufds ci { s.ufds ci with fd := fd, events := POLLIN }
      nopen := s.nopen + 1
      fdmax := max fd s.fdmax
      pc := .serving 1 } := by
  simp only [accept_connection, accept_one] at h
  split at h
  next => cases h
  next =>
    simp only [Option.bind_eq_bind, Option.bind_some, Option.some.injEq, Prod.mk.injEq,
      Function.update_self] at h
    rcases h with ⟨rfl, rfl⟩
    refine ⟨rfl, ?_⟩
    split
    next hgt => simp only [max_eq_left hgt.le]
    next hgt => simp only [max_eq_right (not_lt.mp hgt)]

theorem terminate_client_eq (s : State) (ci : Nat) :
    terminate_client s ci = { s with
      fds := s.fds.erase (s.cd ci)
      isopen := Function.update s.isopen ci false
      ufds := Function.update s.ufds ci { s.ufds ci with fd := -1, events := 0 }
      nopen := s.nopen - 1
      fdmax := if s.cd ci = s.fdmax
        then get_max_fd s.fdmax (Function.update s.isopen ci false) s.cd s.ncons else s.fdmax } := by
  simp only [terminate_client]
  split
  next => rfl
  next => rfl

theorem enter_eq (s : State) : enter s = { s with fdmax := max s.sd s.fdmax, pc := .calling } := by
  simp only [enter]
  split
  next hgt => simp only [max_eq_left hgt.le]
  next hgt => simp only [max_eq_right (not_lt.mp hgt)]

@[simp] theorem serve_pc (s : State) (ci : Nat) (count : Int) :
    (serve s ci count).pc = .serving (ci + 1) := rfl

/-! ## The step at each place -/

section Places

variable {acc : Finset Int → Int → Prop} {s t : State} {e : Event} {ci : Nat}

theorem Step.at_top (hpc : s.pc = .top) (hs : Step acc s e t) : e = .enter ∧ t = Poll.enter s := by
  cases hs with
  | enter _ => exact ⟨rfl, rfl⟩
  | _ hpc' => rw [hpc] at hpc'; cases hpc'

theorem Step.at_calling (hpc : s.pc = .calling) (hs : Step acc s e t) :
    ∃ revents, e = .poll revents ∧
      t = { s with ufds := Poll.poll s.ufds (s.fdmax + 1) revents, pc := .listening } := by
  cases hs with
  | poll _ => exact ⟨_, rfl, rfl⟩
  | _ hpc' => rw [hpc] at hpc'; cases hpc'

theorem Step.at_listening (hpc : s.pc = .listening) (hs : Step acc s e t) :
    (∃ ci fd, e = .accept ci fd ∧ (s.ufds 0).revents ≠ 0 ∧ s.nopen < s.ncons ∧ acc s.fds fd ∧
      accept_connection s fd = some (ci, t)) ∨
    (e = .noAccept ∧ ¬((s.ufds 0).revents ≠ 0 ∧ s.nopen < s.ncons) ∧
      t = { s with pc := .serving 1 }) := by
  cases hs with
  | accept _ hr hn hacc ha => exact Or.inl ⟨_, _, rfl, reported_iff.mp hr, hn, hacc, ha⟩
  | noAccept _ h => exact Or.inr ⟨rfl, by rwa [reported_iff] at h, rfl⟩
  | _ hpc' => rw [hpc] at hpc'; cases hpc'

theorem Step.at_serving (hpc : s.pc = .serving ci) (hs : Step acc s e t) :
    (∃ count, e = .handle ci (s.cd ci) count ∧ ci < s.ncons + 1 ∧ readable s ci = true ∧
      t = serve s ci count) ∨
    (e = .pass ∧ ci < s.ncons + 1 ∧ readable s ci = false ∧ t = { s with pc := .serving (ci + 1) }) ∨
    (e = .wrap ∧ ¬ci < s.ncons + 1 ∧ t = { s with pc := .top }) := by
  cases hs with
  | handle hpc' hci hr =>
    rw [hpc] at hpc'
    cases hpc'
    exact Or.inl ⟨_, rfl, hci, hr, rfl⟩
  | pass hpc' hci hr =>
    rw [hpc] at hpc'
    cases hpc'
    exact Or.inr (Or.inl ⟨rfl, hci, hr, rfl⟩)
  | wrap hpc' hci =>
    rw [hpc] at hpc'
    cases hpc'
    exact Or.inr (Or.inr ⟨rfl, hci, rfl⟩)
  | _ hpc' => rw [hpc] at hpc'; cases hpc'

end Places

end OK210Drivers.Server.Poll
