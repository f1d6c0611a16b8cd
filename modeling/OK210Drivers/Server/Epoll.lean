import OK210Drivers.Library.Heap
import OK210Drivers.Server.Common

/-!
# The epoll server

`lab53_server_epoll.c`.  `ep_event` is the buffer that `epoll_wait` fills and whose events the loop goes
through; `accept_it` also builds the registration of the connection in slot `ci` in `ep_event[ci]`.
Each registration points to a `struct my_data` on the heap.  The kernel keeps the open descriptors
and the interest list, which maps a descriptor to the pointer it was registered with.
-/

open Library

namespace OK210Drivers.Server.Epoll

abbrev Addr := Nat

def maxevents : Nat := 2

-- The call of `epoll_wait`, and turn `i` of the loop over the `n` events it returned.
inductive Pc
  | waiting
  | dispatching (i n : Nat)
  deriving DecidableEq

/-- `heap` holds the `fd` field of every allocated `struct my_data`; `ep_event i` is
`ep_event[i].data.ptr`. -/
structure State where
  sd : Int
  ncons : Nat
  nopen : Int
  isopen : Nat → Bool
  cd : Nat → Int
  ep_event : Nat → Option Addr
  heap : Heap Addr Int
  interest : Int → Option Addr
  fds : Finset Int
  pc : Pc

/-- `main` up to the loop: `isopen` and `cd` as `malloc` returns them, `fds` the descriptors that are
open before `sd` and `epfd`, and `tptr` the block for the listening socket. -/
def main_init (ncons : Nat) (sd epfd : Int) (isopen : Nat → Bool) (cd : Nat → Int)
    (fds : Finset Int) (tptr : Addr) : State where
  sd := sd
  ncons := ncons
  nopen := 0
  isopen := fun ci ↦ if ci < ncons + 8 then false else isopen ci
  cd := cd
  ep_event := fun _ ↦ none
  heap := Heap.alloc (fun _ ↦ none) tptr sd
  interest := Function.update (fun _ ↦ none) sd (some tptr)
  fds := insert epfd (insert sd fds)
  pc := .waiting

/-- The slot at which the search of `terminate_client` stops. -/
def find_client (cd : Nat → Int) (sdes : Int) (ncons : Nat) : Option Nat :=
  (List.range ncons).find? fun ci ↦ decide (sdes = cd ci)

/-- `terminate_client`; it has no result when it frees a block that is not allocated.  The kernel drops
a descriptor from the interest list when it is closed. -/
def terminate_client (s : State) (sdes : Int) (i : Nat) : Option State :=
  match find_client s.cd sdes s.ncons with
  | none => some s
  | some ci => do
    let s := { s with
      fds := s.fds.erase sdes
      interest := Function.update s.interest sdes none }
    let s := { s with isopen := Function.update s.isopen ci false }
    let s := { s with nopen := s.nopen - 1 }
    let heap ← s.heap.free (s.ep_event i)
    some { s with heap := heap }

/-- `accept_it`, where `accept` returns `fd`, `malloc` the block `tptr` and `epoll_ctl` adds the
descriptor or fails, which is not noticed.  The first component is the slot. -/
def accept_it (s : State) (fd : Int) (tptr : Addr) (added : Bool) : Option (Nat × State) := do
  let s := { s with fds := insert fd s.fds }
  let (ci, cd) ← accept_one s.isopen s.cd s.ncons fd
  let s := { s with cd := cd }
  let s := { s with isopen := Function.update s.isopen ci true }
  let s := { s with heap := s.heap.alloc tptr (s.cd ci) }
  let s := { s with ep_event := Function.update s.ep_event ci (some tptr) }
  let s := if added then
    { s with interest := Function.update s.interest (s.cd ci) (s.ep_event ci) } else s
  some (ci, { s with nopen := s.nopen + 1 })

/-- `tptr->fd` for event `i`: the descriptor that the loop takes the event to be about. -/
def event_fd (s : State) (i : Nat) : Option Int := s.heap.read (s.ep_event i)

/-- `epoll_wait` fills the buffer with a registration for each descriptor it reports. -/
def epoll_wait (s : State) (ready : List Int) : State :=
  { s with
    ep_event := fun i ↦ if h : i < ready.length then s.interest (ready.get ⟨i, h⟩) else s.ep_event i
    pc := .dispatching 0 ready.length }

/-- `epoll_wait` reports at most `maxevents` descriptors, each of them registered, and none twice. -/
def Reports (s : State) (ready : List Int) : Prop :=
  ready.length ≤ maxevents ∧ ready.Nodup ∧ ∀ fd ∈ ready, (s.interest fd).isSome

/-- What the loop does with an event: `accept_it`, nothing when the server is full, `handle_client`
that leaves the connection open, or `handle_client` and then `terminate_client`, with the slot this
finds and the block it frees. -/
inductive Event
  | wait (ready : List Int)
  | accept (ci : Nat) (fd : Int) (tptr : Addr)
  | full
  | serve (fd : Int)
  | close (fd : Int) (ci : Option Nat) (freed : Option Addr)
  | wrap
  deriving DecidableEq

inductive Step : State → Event → State → Prop
  | wait {s ready} (hpc : s.pc = .waiting) (hr : Reports s ready) :
      Step s (.wait ready) (epoll_wait s ready)
  | accept {s i n fd tptr added ci t} (hpc : s.pc = .dispatching i n) (hi : i < n)
      (he : event_fd s i = some s.sd) (hn : s.nopen < s.ncons) (hacc : AcceptLowest s.fds fd)
      (hm : s.heap tptr = none) (ha : accept_it s fd tptr added = some (ci, t)) :
      Step s (.accept ci fd tptr) { t with pc := .dispatching (i + 1) n }
  | full {s i n} (hpc : s.pc = .dispatching i n) (hi : i < n) (he : event_fd s i = some s.sd)
      (hn : ¬s.nopen < s.ncons) : Step s .full { s with pc := .dispatching (i + 1) n }
  | serve {s i n fd count} (hpc : s.pc = .dispatching i n) (hi : i < n)
      (he : event_fd s i = some fd) (hsd : fd ≠ s.sd) (hc : handle_client count = 0) :
      Step s (.serve fd) { s with pc := .dispatching (i + 1) n }
  | close {s i n fd count t} (hpc : s.pc = .dispatching i n) (hi : i < n)
      (he : event_fd s i = some fd) (hsd : fd ≠ s.sd) (hc : handle_client count ≠ 0)
      (ht : terminate_client s fd i = some t) :
      Step s (.close fd (find_client s.cd fd s.ncons) (s.ep_event i))
        { t with pc := .dispatching (i + 1) n }
  | wrap {s i n} (hpc : s.pc = .dispatching i n) (hi : ¬i < n) :
      Step s .wrap { s with pc := .waiting }

/-! ## What the operations do -/

theorem find_client_eq_some {cd : Nat → Int} {sdes : Int} {ncons ci : Nat} :
    find_client cd sdes ncons = some ci ↔ ci < ncons ∧ cd ci = sdes ∧ ∀ j < ci, cd j ≠ sdes := by
  simp only [find_client, List.find?_range_eq_some, List.mem_range, decide_eq_true_eq,
    Bool.not_eq_true', decide_eq_false_iff_not]
  constructor
  · rintro ⟨he, hlt, hj⟩
    exact ⟨hlt, he.symm, fun j hjc hcd ↦ hj j hjc hcd.symm⟩
  · rintro ⟨hlt, he, hj⟩
    exact ⟨he.symm, hlt, fun j hjc hcd ↦ hj j hjc hcd.symm⟩

theorem accept_it_eq {s : State} {fd : Int} {tptr : Addr} {added : Bool} {ci : Nat} {t : State}
    (h : accept_it s fd tptr added = some (ci, t)) :
    ci = firstFree s.isopen s.ncons ∧ t = { s with
      fds := insert fd s.fds
      cd := Function.update s.cd ci fd
      isopen := Function.update s.isopen ci true
      heap := s.heap.alloc tptr fd
      ep_event := Function.update s.ep_event ci (some tptr)
      interest := if added then Function.update s.interest fd (some tptr) else s.interest
      nopen := s.nopen + 1 } := by
  simp only [accept_it, accept_one] at h
  split at h
  next => cases h
  next =>
    simp only [Option.bind_eq_bind, Option.bind_some, Option.some.injEq, Prod.mk.injEq,
      Function.update_self] at h
    rcases h with ⟨rfl, rfl⟩
    exact ⟨rfl, by cases added <;> rfl⟩

theorem terminate_client_eq {s : State} {sdes : Int} {i ci : Nat} {a : Addr} {v : Int}
    (hfind : find_client s.cd sdes s.ncons = some ci) (hev : s.ep_event i = some a)
    (hv : s.heap a = some v) :
    terminate_client s sdes i = some { s with
      fds := s.fds.erase sdes
      interest := Function.update s.interest sdes none
      isopen := Function.update s.isopen ci false
      nopen := s.nopen - 1
      heap := Function.update s.heap a none } := by
  simp only [terminate_client, hfind, hev, Heap.free_some hv, Option.bind_eq_bind, Option.bind_some]

end OK210Drivers.Server.Epoll
