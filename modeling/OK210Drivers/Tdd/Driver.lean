import OK210Drivers.Library.Heap
import OK210Drivers.Library.Mem

/-!
# The tdd character device

`lab9.c` queues what `tdd_write` receives in a singly linked list of `struct tdd_buf` and lets
`tdd_read` take the messages out one by one.  Addresses are chosen by `kmalloc`; an access through a
pointer that is null or to a node that is not allocated has no result (`none`).
-/

open Library

namespace OK210Drivers.Tdd

def MAX_BUF : Nat := 120
def ENOMEM : Int := 12
def ENODATA : Int := 61

abbrev Addr := Nat

/-- `struct tdd_buf`.  `buf_size` is read as the unsigned value `count` is compared with. -/
structure TddBuf where
  buf_size : Nat
  buffer : Mem UInt8
  link : Option Addr

/-- The static variables of the module and the nodes it has allocated. -/
structure State where
  heap : Heap Addr TddBuf
  qhead : Option Addr
  qtail : Option Addr
  write_busy : Bool
  read_busy : Bool

/-- `qtail` is not touched: after a reload it still holds what the last unload left there. -/
def tdd_init (s : State) : State :=
  { s with qhead := none, write_busy := false, read_busy := false }

/-- `copy_from_user` with `left` bytes that could not be copied: the kernel zeroes those. -/
def copy_from_user (dst src : Mem UInt8) (n left : Nat) : Mem UInt8 :=
  dst.store 0 (src.load 0 (n - left) ++ List.replicate (min n left) 0)

/-- The bytes `copy_to_user` delivers when `left` bytes could not be copied. -/
def copy_to_user (src : Mem UInt8) (n left : Nat) : List UInt8 :=
  src.load 0 (n - left)

/-- `tdd_write(file, buffer, count, offset)`: `mem` is what `kmalloc` returns (the node's address and
its uninitialised contents), `user` the caller's buffer and `left` the result of
`copy_from_user`. -/
def tdd_write (s : State) (mem : Option (Addr × TddBuf)) (user : Mem UInt8) (count left : Nat) :
    Option (Int × State) :=
  match mem with
  | none => some (-ENOMEM, s)
  | some (ptr, garbage) => do
    let heap := s.heap.alloc ptr garbage
    let len := if count < MAX_BUF then count else MAX_BUF
    let heap ← heap.modify (some ptr) fun b ↦
      { b with buffer := copy_from_user b.buffer user len left }
    if left ≠ 0 then
      -- the node is neither linked nor freed
      some (-ENOMEM, { s with heap := heap })
    else do
      let heap ← heap.modify (some ptr) fun b ↦ { b with link := none }
      let heap ← if s.qhead = none then some heap
        else heap.modify s.qtail fun b ↦ { b with link := some ptr }
      let qhead := if s.qhead = none then some ptr else s.qhead
      let heap ← heap.modify (some ptr) fun b ↦ { b with buf_size := len }
      some (len, { s with heap := heap, qhead := qhead, qtail := some ptr })

/-- `tdd_read(file, buffer, count, offset)`: `left` is the result of `copy_to_user`.  The second
component is what arrives in the caller's buffer. -/
def tdd_read (s : State) (count left : Nat) : Option (Int × List UInt8 × State) :=
  if s.qhead = none then some (-ENODATA, [], s)
  else do
    let ptr := s.qhead
    let first ← s.heap.read s.qhead
    let s := { s with qhead := first.link }
    let b ← s.heap.read ptr
    let len := if count < b.buf_size then count else b.buf_size
    let out := copy_to_user b.buffer len left
    if left ≠ 0 then
      -- the node is off the queue but not freed
      some (-1, out, s)
    else do
      let heap ← s.heap.free ptr
      some (len, out, { s with heap := heap })

/-- The calls of a client, with what the kernel answers during the call. -/
inductive Call
  | write (mem : Option (Addr × TddBuf)) (user : Mem UInt8) (count left : Nat)
  | read (count left : Nat)

def exec (s : State) : Call → Option (Int × List UInt8 × State)
  | .write mem user count left => (tdd_write s mem user count left).map fun r ↦ (r.1, [], r.2)
  | .read count left => tdd_read s count left

/-- `kmalloc` fails or returns an address that is not allocated. -/
def Call.FreshIn (s : State) : Call → Prop
  | .write mem _ _ _ => ∀ x ∈ mem, s.heap x.1 = none
  | .read _ _ => True

/-- The copies between the user's memory and the node succeed. -/
def Call.CopyOk : Call → Prop
  | .write _ _ _ left => left = 0
  | .read _ left => left = 0

/-- A call with its return value and the bytes it delivers to the caller. -/
structure Event where
  call : Call
  ret : Int
  out : List UInt8

/-- A call whose copies succeed. -/
def Step (s : State) (e : Event) (t : State) : Prop :=
  e.call.FreshIn s ∧ e.call.CopyOk ∧ exec s e.call = some (e.ret, e.out, t)

/-- What a successful write hands over: at most `MAX_BUF` bytes of the caller's buffer. -/
def Event.written? (e : Event) : Option (List UInt8) :=
  match e.call with
  | .write _ user count _ => if 0 ≤ e.ret then some (user.load 0 (min count MAX_BUF)) else none
  | .read _ _ => none

/-- The size asked for, the return value and the bytes delivered by a successful read. -/
structure Delivery where
  count : Nat
  ret : Int
  out : List UInt8

def Event.delivered? (e : Event) : Option Delivery :=
  match e.call with
  | .write _ _ _ _ => none
  | .read count _ => if 0 ≤ e.ret then some ⟨count, e.ret, e.out⟩ else none

/-- The messages of the successful writes of a history, in order. -/
def writes (es : List Event) : List (List UInt8) := es.filterMap Event.written?

/-- The successful reads of a history, in order. -/
def reads (es : List Event) : List Delivery := es.filterMap Event.delivered?

end OK210Drivers.Tdd
