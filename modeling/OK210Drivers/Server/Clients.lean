import OK210Drivers.Server.SelectBookkeeping

/-!
# The clients of lab53 and the select() server

Any number of `lab53_client.c` against one `lab53_server_select.c`.  A connection waits in the queue of the
listening socket until the server accepts it, and carries the bytes that are on their way in either
direction.  `recv` may return any part of what has arrived.
-/

open Library

namespace OK210Drivers.Server.Lab53

def MSG_MAXSIZE : Nat := 1024

variable {C : Type} [DecidableEq C]

/-- A connection: the client and the place in its `sdvec`. -/
abbrev Conn (C : Type) := C × Nat

/-- Where a client is: `open_sockets`, `write_random_sockets` before and behind its `send`, and
`close_sockets`. -/
inductive Pc
  | opening (j : Nat)
  | writing (k : Nat)
  | receiving (k j : Nat)
  | closing (j : Nat)
  | exited
  deriving DecidableEq

-- `%d` and `%3d`.
def format_d (n : Nat) : List Char := Nat.toDigits 10 n
def format_3d (n : Nat) : List Char := List.replicate (3 - (format_d n).length) ' ' ++ format_d n

/-- `"Hi. I'm PID %d, socket %3d (k=%3d), on %s\n"`. -/
def request_text (pid sd k : Nat) (hostname : List Char) : List Char :=
  "Hi. I'm PID ".toList ++ format_d pid ++ ", socket ".toList ++ format_3d sd ++ " (k=".toList ++
    format_3d k ++ "), on ".toList ++ hostname ++ "\n".toList

/-- `"Hi from server at: %s. PID=%d\n"`. -/
def response_text (hostname : List Char) (pid : Nat) : List Char :=
  "Hi from server at: ".toList ++ hostname ++ ". PID=".toList ++ format_d pid ++ "\n".toList

/-- The command lines, what the calls of the C library return to the texts, and the length of the queue of
the listening socket. -/
structure Setup (C : Type) where
  ncons : C → Nat
  nwrites : C → Nat
  pid : C → Nat
  sdvec : C → Nat → Nat
  hostname : C → List Char
  server_hostname : List Char
  server_pid : Nat
  backlog : Nat

/-- `n` clients with `ncons` connections and `nwrites` requests each; 3 and 10 are what the program has
without arguments. -/
def some_clients (n ncons nwrites : Nat) : Setup (Fin n) where
  ncons _ := ncons
  nwrites _ := nwrites
  pid c := 100 + c
  sdvec _ j := 3 + j
  hostname _ := "ok210".toList
  server_hostname := "ok210".toList
  server_pid := 99
  backlog := 1000

def Setup.request (p : Setup C) (c : C) (j k : Nat) : List Char :=
  request_text (p.pid c) (p.sdvec c j) k (p.hostname c)

def Setup.response (p : Setup C) : List Char := response_text p.server_hostname p.server_pid

/-- `pending` is the queue of the listening socket, `owner` the connection that a descriptor of the server
is for, `up` and `down` what is on its way to the server and to the client. -/
structure State (C : Type) where
  server : Select.State
  pending : List (Conn C)
  owner : Int → Option (Conn C)
  up : Conn C → List Char
  down : Conn C → List Char
  closed : Conn C → Bool
  pc : C → Pc

/-- The server before its first turn and the clients before their first `connect`. -/
def start (server : Select.State) : State C where
  server := server
  pending := []
  owner _ := none
  up _ := []
  down _ := []
  closed _ := false
  pc _ := .opening 0

def State.goto (s : State C) (c : C) (pc : Pc) : State C where
  server := s.server
  pending := s.pending
  owner := s.owner
  up := s.up
  down := s.down
  closed := s.closed
  pc := Function.update s.pc c pc

/-- What `select` looks for: a connection to accept, or bytes or the end of them on a connection. -/
def State.Readable (s : State C) (d : Int) : Prop :=
  d = s.server.sd ∧ s.pending ≠ [] ∨ ∃ x, s.owner d = some x ∧ (s.up x ≠ [] ∨ s.closed x = true)

/-- A step of the server, with the connection it reads from and the bytes it prints, or one of a client's
calls; `opened` and `written` are the ends of the client's loops. -/
inductive Event (C : Type)
  | server (e : Select.Event) (printed : Option (Conn C × List Char))
  | connect (c : C) (j : Nat)
  | opened (c : C)
  | send (c : C) (k j : Nat)
  | recv (c : C) (k j : Nat) (printed : List Char)
  | written (c : C)
  | close (c : C) (j : Nat)
  | exit (c : C)

/-- `accept` returns the lowest descriptor that is free, one that an `fd_set` has a bit for. -/
def Accept (fds : Finset Int) (fd : Int) : Prop := AcceptLowest fds fd ∧ fd < FD_SETSIZE

-- The steps of the server that others do not notice.
def Quiet (e : Select.Event) : Prop := e = .enter ∨ e = .noAccept ∨ e = .pass ∨ e = .wrap

/-- One step of the server.  `recv` returns bytes when there are any, and 0 or an error only when the
client has closed the connection. -/
inductive ServerStep (p : Setup C) : State C → Event C → State C → Prop
  | quiet {s e t} (he : Quiet e) (h : Select.Step Accept s.server e t) :
      ServerStep p s (.server e none) { s with server := t }
  | select {s ready t} (h : Select.Step Accept s.server (.select ready) t)
      (hready : ∀ d, d ∈ ready ↔ d ∈ s.server.testset ∧ s.Readable d) (hsome : ready ≠ ∅) :
      ServerStep p s (.server (.select ready) none) { s with server := t }
  | accept {s x rest ci fd t} (hq : s.pending = x :: rest)
      (h : Select.Step Accept s.server (.accept ci fd) t) :
      ServerStep p s (.server (.accept ci fd) none)
        { s with server := t, pending := rest, owner := Function.update s.owner fd (some x) }
  | receive {s ci fd x n t} (hx : s.owner fd = some x) (hpos : 0 < n) (hn : n ≤ MSG_MAXSIZE)
      (hlen : n ≤ (s.up x).length) (h : Select.Step Accept s.server (.handle ci fd n) t) :
      ServerStep p s (.server (.handle ci fd n) (some (x, (s.up x).take n)))
        { s with
          server := t
          up := Function.update s.up x ((s.up x).drop n)
          down := Function.update s.down x (s.down x ++ p.response) }
  | hangup {s ci fd x count t} (hx : s.owner fd = some x) (hc : s.closed x = true) (hle : count ≤ 0)
      (h : Select.Step Accept s.server (.handle ci fd count) t) :
      ServerStep p s (.server (.handle ci fd count) none)
        { s with server := t, owner := Function.update s.owner fd none }

/-- One call of a client. -/
inductive ClientStep (p : Setup C) : State C → Event C → State C → Prop
  | connect {s c j} (hpc : s.pc c = .opening j) (hj : j < p.ncons c) (hq : s.pending.length < p.backlog) :
      ClientStep p s (.connect c j)
        { s.goto c (.opening (j + 1)) with pending := s.pending ++ [(c, j)] }
  | opened {s c} (hpc : s.pc c = .opening (p.ncons c)) : ClientStep p s (.opened c) (s.goto c (.writing 0))
  | send {s c k j} (hpc : s.pc c = .writing k) (hk : k < p.nwrites c) (hj : j < p.ncons c) :
      ClientStep p s (.send c k j)
        { s.goto c (.receiving k j) with
          up := Function.update s.up (c, j) (s.up (c, j) ++ p.request c j k) }
  | recv {s c k j n} (hpc : s.pc c = .receiving k j) (hpos : 0 < n) (hn : n ≤ MSG_MAXSIZE)
      (hlen : n ≤ (s.down (c, j)).length) :
      ClientStep p s (.recv c k j ((s.down (c, j)).take n))
        { s.goto c (.writing (k + 1)) with
          down := Function.update s.down (c, j) ((s.down (c, j)).drop n) }
  | written {s c} (hpc : s.pc c = .writing (p.nwrites c)) : ClientStep p s (.written c) (s.goto c (.closing 0))
  | close {s c j} (hpc : s.pc c = .closing j) (hj : j < p.ncons c) :
      ClientStep p s (.close c j)
        { s.goto c (.closing (j + 1)) with closed := Function.update s.closed (c, j) true }
  | exit {s c} (hpc : s.pc c = .closing (p.ncons c)) : ClientStep p s (.exit c) (s.goto c .exited)

def Step (p : Setup C) (s : State C) (e : Event C) (t : State C) : Prop :=
  ServerStep p s e t ∨ ClientStep p s e t

end OK210Drivers.Server.Lab53
