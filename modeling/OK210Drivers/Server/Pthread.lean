import OK210Drivers.Server.Common

/-!
# The pthread server

`lab53_server_pthread.c`: a worker thread for each connection.  A step is one statement of the main
thread or of a worker that reads or writes `isopen`, `cd` or `nopen`, or one section under
`nopen_lock`; the threads take their steps in any order.
-/

open Library

namespace OK210Drivers.Server.Pthread

/-- The places of the main thread: the test of `nopen`, turn `ci` of the search and the call of `accept`
in `accept_one`, and the statements that follow, in their order. -/
inductive Pc
  | top
  | searching (ci : Nat)
  | accepting (ci : Nat)
  | opening (ci : Nat)
  | counting (ci : Nat)
  | storing (ci : Nat)
  | creating (ci : Nat)
  deriving DecidableEq

/-- The places of a worker: `handle_clientp` before its argument is read and in its loop, and
`terminate_client` before its first statement and before its section. -/
inductive WorkerPc
  | start (arg : Nat)
  | serving (ci : Nat)
  | terminating (ci : Nat)
  | closing (ci : Nat)
  deriving DecidableEq

def WorkerPc.slot : WorkerPc → Nat
  | .start arg => arg
  | .serving ci => ci
  | .terminating ci => ci
  | .closing ci => ci

/-- `threads` are the workers that have not ended, out of the first `created` that were numbered. -/
structure State where
  ncons : Nat
  nopen : Int
  isopen : Nat → Bool
  cd : Nat → Int
  thread_data : Nat → Nat
  fds : Finset Int
  pc : Pc
  created : Nat
  threads : Finset Nat
  worker : Nat → WorkerPc

/-- `main` up to the loop, with the arrays as `malloc` returns them; `fds` are the open descriptors. -/
def main_init (ncons : Nat) (isopen : Nat → Bool) (cd : Nat → Int) (thread_data : Nat → Nat)
    (fds : Finset Int) : State where
  ncons := ncons
  nopen := 0
  isopen := fun ci ↦ if ci < ncons then false else isopen ci
  cd := cd
  thread_data := thread_data
  fds := fds
  pc := .top
  created := 0
  threads := ∅
  worker := fun _ ↦ .start 0

/-- The section of `terminate_client`, with which the worker ends. -/
def close_section (s : State) (w ci : Nat) : State :=
  let s := { s with nopen := s.nopen - 1 }
  let s := { s with fds := s.fds.erase (s.cd ci) }
  { s with threads := s.threads.erase w }

/-- What a step does that others can see; workers are numbered as they are created. -/
inductive Event
  | accept (ci : Nat) (fd : Int)
  | create (w ci : Nat)
  | close (w ci : Nat) (fd : Int)
  | tau
  deriving DecidableEq

inductive Step : State → Event → State → Prop
  -- the main thread
  | full {s} (hpc : s.pc = .top) (hn : s.nopen = s.ncons) : Step s .tau s
  | room {s} (hpc : s.pc = .top) (hn : s.nopen ≠ s.ncons) : Step s .tau { s with pc := .searching 0 }
  | taken {s ci} (hpc : s.pc = .searching ci) (hci : ci < s.ncons) (ho : s.isopen ci = true) :
      Step s .tau { s with pc := .searching (ci + 1) }
  | found {s ci} (hpc : s.pc = .searching ci) (hci : ci < s.ncons) (ho : s.isopen ci = false) :
      Step s .tau { s with pc := .accepting ci }
  | missed {s ci} (hpc : s.pc = .searching ci) (hci : ¬ci < s.ncons) :
      Step s .tau { s with pc := .accepting ci }
  | accept {s ci fd} (hpc : s.pc = .accepting ci) (hfd : AcceptNew s.fds fd) :
      Step s (.accept ci fd)
        { s with fds := insert fd s.fds, cd := Function.update s.cd ci fd, pc := .opening ci }
  | mark {s ci} (hpc : s.pc = .opening ci) :
      Step s .tau { s with isopen := Function.update s.isopen ci true, pc := .counting ci }
  | count {s ci} (hpc : s.pc = .counting ci) :
      Step s .tau { s with nopen := s.nopen + 1, pc := .storing ci }
  | store {s ci} (hpc : s.pc = .storing ci) :
      Step s .tau { s with thread_data := Function.update s.thread_data ci ci, pc := .creating ci }
  | create {s ci} (hpc : s.pc = .creating ci) :
      Step s (.create s.created ci) { s with
        threads := insert s.created s.threads
        worker := Function.update s.worker s.created (.start ci)
        created := s.created + 1
        pc := .top }
  -- worker `w`
  | read {s w arg} (hw : w ∈ s.threads) (hpc : s.worker w = .start arg) :
      Step s .tau { s with worker := Function.update s.worker w (.serving (s.thread_data arg)) }
  | serve {s w ci count} (hw : w ∈ s.threads) (hpc : s.worker w = .serving ci)
      (hcount : handle_client count = 0) : Step s .tau s
  | shutdown {s w ci count} (hw : w ∈ s.threads) (hpc : s.worker w = .serving ci)
      (hcount : handle_client count ≠ 0) :
      Step s .tau { s with worker := Function.update s.worker w (.terminating ci) }
  | unmark {s w ci} (hw : w ∈ s.threads) (hpc : s.worker w = .terminating ci) :
      Step s .tau { s with
        isopen := Function.update s.isopen ci false
        worker := Function.update s.worker w (.closing ci) }
  | close {s w ci} (hw : w ∈ s.threads) (hpc : s.worker w = .closing ci) :
      Step s (.close w ci (s.cd ci)) (close_section s w ci)

end OK210Drivers.Server.Pthread
