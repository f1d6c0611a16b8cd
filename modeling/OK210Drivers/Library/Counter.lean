import OK210Drivers.Library.Runs

/-!
# Atomic counters

What the threads that share a counter are meant to make of it: one is added to what is there, and it is
read, in one step each.
-/

namespace Library

variable {w : Nat}

inductive CounterOp (w : Nat)
  /-- One is added, which makes `v`. -/
  | add (v : BitVec w)
  | get (v : BitVec w)

inductive CounterStep : BitVec w → CounterOp w → BitVec w → Prop
  | add (c : BitVec w) : CounterStep c (.add (c + 1#w)) (c + 1#w)
  | get (c : BitVec w) : CounterStep c (.get c) c

namespace CounterStep

theorem add_ofNat (n : Nat) :
    CounterStep (BitVec.ofNat w n) (.add (BitVec.ofNat w (n + 1))) (BitVec.ofNat w (n + 1)) := by
  rw [BitVec.ofNat_add]
  exact .add _

end CounterStep

end Library
