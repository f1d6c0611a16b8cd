import OK210Drivers.Tdd.Fifo

/-!
# What a failing call leaves behind

`tdd_write` allocates its node before it copies from the caller, and `tdd_read` takes its node off the
queue before it copies to the caller.  Neither puts things back when the copy fails.
-/

open Library

namespace OK210Drivers.Tdd

/-- A call, whatever the copies do. -/
def AnyStep (s : State) (e : Event) (t : State) : Prop :=
  e.call.FreshIn s ∧ exec s e.call = some (e.ret, e.out, t)

/-- The call reports an error only if it leaves the queued messages and the allocated nodes as they
were. -/
def FailsCleanly (s : State) (e : Event) (t : State) : Prop :=
  e.ret < 0 → (∀ q, Queued s q ↔ Queued t q) ∧ ∀ a, s.heap a = none ↔ t.heap a = none

/-- There is no node when the copy fails: `kmalloc` has failed too, or the queue is empty. -/
def Call.NoFaultWithNode (s : State) : Call → Prop
  | .write mem _ _ left => left ≠ 0 → mem = none
  | .read _ left => left ≠ 0 → s.qhead = none

section Faults

variable {s t : State} {nodes : List (Addr × TddBuf)} {q : List (List UInt8)} {e : Event}

theorem queued_unique {q' : List (List UInt8)} (h : Queued s q) (h' : Queued s q') : q = q' := by
  obtain ⟨nodes, hr, rfl⟩ := h
  obtain ⟨nodes', hr', rfl⟩ := h'
  rw [hr.chain.unique hr'.chain]

-- A write whose copy fails: the node stays allocated, and nothing else changes.
theorem tdd_write_fault {ptr : Addr} (garbage : TddBuf) (user : Mem UInt8) (count : Nat) {left : Nat}
    (hleft : left ≠ 0) : ∃ b, tdd_write s (some (ptr, garbage)) user count left =
      some (-ENOMEM, { s with heap := Function.update s.heap ptr (some b) }) := by
  let len := if count < MAX_BUF then count else MAX_BUF
  refine ⟨{ garbage with buffer := copy_from_user garbage.buffer user len left }, ?_⟩
  simp only [tdd_write, Heap.alloc, Heap.modify, Option.bind_some, Function.update_self,
    Option.map_some, Function.update_idem, Option.bind_eq_bind, if_pos hleft, len]

-- A read whose copy fails: the node is off the queue and stays allocated.
theorem tdd_read_fault {a : Addr} {n : TddBuf} (hr : Represents s ((a, n) :: nodes)) (count : Nat)
    {left : Nat} (hleft : left ≠ 0) : ∃ out, tdd_read s count left =
      some (-1, out, { s with qhead := n.link }) := by
  obtain ⟨hhead, hnode, _⟩ := hr.chain
  refine ⟨copy_to_user n.buffer (if count < n.buf_size then count else n.buf_size) left, ?_⟩
  simp only [tdd_read, hhead, Heap.read_some, hnode, Option.bind_eq_bind, Option.bind_some,
    reduceCtorEq, if_false, if_pos hleft]

theorem exec_write_fault {ptr : Addr} {garbage : TddBuf} {user : Mem UInt8} {count left : Nat}
    {ret : Int} {out : List UInt8} (hleft : left ≠ 0)
    (he : exec s (.write (some (ptr, garbage)) user count left) = some (ret, out, t)) :
    ret = -ENOMEM ∧ ∃ b, t = { s with heap := Function.update s.heap ptr (some b) } := by
  obtain ⟨b, hb⟩ := @tdd_write_fault s ptr garbage user count left hleft
  simp only [exec, hb, Option.map_some, Option.some.injEq, Prod.mk.injEq] at he
  exact ⟨he.1.symm, b, he.2.2.symm⟩

theorem exec_read_fault {a : Addr} {n : TddBuf} {count left : Nat} {ret : Int} {out : List UInt8}
    (hr : Represents s ((a, n) :: nodes)) (hleft : left ≠ 0)
    (he : exec s (.read count left) = some (ret, out, t)) : ret = -1 ∧ t = { s with qhead := n.link } := by
  obtain ⟨out', hout⟩ := tdd_read_fault hr count hleft
  simp only [exec, hout, Option.some.injEq, Prod.mk.injEq] at he
  exact ⟨he.1.symm, he.2.2.symm⟩

-- A node that is not on the queue makes no difference to it.
theorem Represents.update_free (hr : Represents s nodes) {ptr : Addr} (hfree : s.heap ptr = none)
    (v : Option TddBuf) : Represents { s with heap := Function.update s.heap ptr v } nodes :=
  ⟨hr.chain.update_of_not_mem v (hr.chain.not_mem_of_free hfree), hr.nodup, hr.tail⟩

theorem Represents.unlink {a : Addr} {n : TddBuf} (hr : Represents s ((a, n) :: nodes)) :
    Represents { s with qhead := n.link } nodes := by
  refine ⟨hr.chain.2.2, (List.nodup_cons.mp hr.nodup).2, fun x hx ↦ ?_⟩
  apply hr.tail x
  cases nodes with
  | nil => cases hx
  | cons y nodes => simpa using hx

/-- Whatever the copies do, the queue stays a queue. -/
theorem queued_anyStep (h : ∃ q, Queued s q) (hs : AnyStep s e t) : ∃ q, Queued t q := by
  obtain ⟨q, hq⟩ := h
  obtain ⟨hfree, he⟩ := hs
  by_cases hcopy : e.call.CopyOk
  · obtain ⟨_, q', _, _, hq'⟩ := tdd_simulates hq ⟨hfree, hcopy, he⟩
    exact ⟨q', hq'⟩
  · obtain ⟨call, ret, out⟩ := e
    obtain ⟨nodes, hr, rfl⟩ := hq
    cases call with
    | write mem user count left =>
      cases mem with
      | none =>
        obtain ⟨_, _, rfl⟩ := exec_write_none he
        exact ⟨_, nodes, hr, rfl⟩
      | some x =>
        have hptr : s.heap x.1 = none := hfree x rfl
        obtain ⟨_, b, rfl⟩ := exec_write_fault hcopy he
        exact ⟨_, nodes, hr.update_free hptr (some b), rfl⟩
    | read count left =>
      cases nodes with
      | nil =>
        obtain ⟨_, _, rfl⟩ := exec_read_nil hr he
        exact ⟨_, [], hr, rfl⟩
      | cons x nodes =>
        obtain ⟨_, rfl⟩ := exec_read_fault hr hcopy he
        exact ⟨_, nodes, hr.unlink, rfl⟩

theorem failsCleanly_self : FailsCleanly s e s := fun _ ↦ ⟨fun _ ↦ Iff.rfl, fun _ ↦ Iff.rfl⟩

theorem failsCleanly_of_nonneg (h : 0 ≤ e.ret) : FailsCleanly s e t := fun hneg ↦ absurd hneg (by omega)

-- Where the copies succeed, an error means that the call has done nothing.
theorem failsCleanly_of_copyOk (hr : Represents s nodes) (hs : AnyStep s e t) (hcopy : e.call.CopyOk) :
    FailsCleanly s e t := by
  obtain ⟨call, ret, out⟩ := e
  obtain ⟨hfree, he⟩ := hs
  cases call with
  | write mem user count left =>
    obtain rfl : left = 0 := hcopy
    cases mem with
    | none =>
      obtain ⟨_, _, rfl⟩ := exec_write_none he
      exact failsCleanly_self
    | some x =>
      have hret : ret = _ := (exec_write hr (hfree x rfl) he).1
      apply failsCleanly_of_nonneg
      show 0 ≤ ret
      omega
  | read count left =>
    obtain rfl : left = 0 := hcopy
    cases nodes with
    | nil =>
      obtain ⟨_, _, rfl⟩ := exec_read_nil hr he
      exact failsCleanly_self
    | cons x nodes =>
      have hret : ret = _ := (exec_read_cons hr he).1
      apply failsCleanly_of_nonneg
      show 0 ≤ ret
      omega

/-- In a state that a run reaches a call fails cleanly exactly when no copy fails while it has a node. -/
theorem failsCleanly_iff (hq : Queued s q) (hs : AnyStep s e t) :
    e.call.NoFaultWithNode s ↔ FailsCleanly s e t := by
  obtain ⟨nodes, hr, rfl⟩ := hq
  obtain ⟨call, ret, out⟩ := e
  cases call with
  | write mem user count left =>
    by_cases hleft : left = 0
    · exact iff_of_true (absurd hleft) (failsCleanly_of_copyOk hr hs hleft)
    obtain ⟨hfree, he⟩ := hs
    cases mem with
    | none =>
      obtain ⟨_, _, rfl⟩ := exec_write_none he
      exact iff_of_true (fun _ ↦ rfl) failsCleanly_self
    | some x =>
      have hptr : s.heap x.1 = none := hfree x rfl
      obtain ⟨rfl, b, rfl⟩ := exec_write_fault hleft he
      refine iff_of_false (fun h ↦ by cases h hleft) fun h ↦ ?_
      -- the node has leaked
      have hleak : Function.update s.heap x.1 (some b) x.1 = none :=
        ((h (by decide : -ENOMEM < 0)).2 x.1).mp hptr
      rw [Function.update_self] at hleak
      cases hleak
  | read count left =>
    by_cases hleft : left = 0
    · exact iff_of_true (absurd hleft) (failsCleanly_of_copyOk hr hs hleft)
    obtain ⟨_, he⟩ := hs
    cases nodes with
    | nil =>
      obtain ⟨_, _, rfl⟩ := exec_read_nil hr he
      exact iff_of_true (fun _ ↦ hr.chain) failsCleanly_self
    | cons x nodes =>
      obtain ⟨rfl, rfl⟩ := exec_read_fault hr hleft he
      refine iff_of_false (fun h ↦ ?_) fun h ↦ ?_
      · have hnone : s.qhead = none := h hleft
        rw [hr.chain.1] at hnone
        cases hnone
      · -- the message is no longer queued
        have hback : Queued s (messages nodes) :=
          ((h (by decide : (-1 : Int) < 0)).1 _).mpr ⟨nodes, hr.unlink, rfl⟩
        have hlen := congrArg List.length (queued_unique hback ⟨_, hr, rfl⟩)
        unfold messages at hlen
        rw [List.length_map, List.length_map, List.length_cons] at hlen
        omega

/-- Every error is clean exactly in the runs in which no copy fails once the call has its node. -/
theorem failures_clean_iff (s₀ : State) {es : List Event} :
    GuardedRun AnyStep (fun _ s e ↦ e.call.NoFaultWithNode s) (tdd_init s₀) es s ↔
      RunWhere AnyStep (fun _ s e t ↦ FailsCleanly s e t) (tdd_init s₀) es s := by
  refine RunWhere.iff_of_invariant (fun _ s ↦ ∃ q, Queued s q) ⟨[], [], represents_tdd_init s₀, rfl⟩
    (fun es s e t h hs _ ↦ queued_anyStep h hs) fun es s e t ⟨q, hq⟩ hs ↦ failsCleanly_iff hq hs

end Faults

/-- A read whose copy fails takes its message with it, and a write whose copy fails leaks its node. -/
theorem failing_copies :
    let s₀ : State := ⟨fun _ ↦ none, none, none, false, false⟩
    let node : TddBuf := ⟨9, fun _ ↦ 0, some 3⟩
    let user : Mem UInt8 := fun i ↦ UInt8.ofNat (i + 1)
    (∃ es s e t, Run AnyStep (tdd_init s₀) es s ∧ AnyStep s e t ∧ e.call = .read 3 3 ∧ e.ret = -1 ∧
      Queued s [[1, 2, 3]] ∧ Queued t [] ∧ t.heap 7 ≠ none ∧ ¬FailsCleanly s e t) ∧
    ∃ e t, AnyStep (tdd_init s₀) e t ∧ e.call = .write (some (7, node)) user 3 3 ∧
      e.ret = -ENOMEM ∧ t.heap 7 ≠ none ∧ ¬FailsCleanly (tdd_init s₀) e t := by
  intro s₀ node user
  have hempty := represents_tdd_init s₀
  have hfree : ∀ x ∈ some (7, node), (tdd_init s₀).heap x.1 = none := fun _ _ ↦ rfl
  constructor
  · let n := newNode node user 3
    let s : State := ⟨Function.update (fun _ ↦ none) 7 (some n), some 7, some 7, false, false⟩
    let e₁ : Event := ⟨.write (some (7, node)) user 3 0, 3, []⟩
    have hr : Represents s [(7, n)] := ⟨Chain.singleton rfl, List.nodup_singleton _, by simp [s]⟩
    have hmsg : messages [(7, n)] = [[1, 2, 3]] := by
      show [n.message] = _
      rw [newNode_message]
      decide
    have hexec : exec (tdd_init s₀) (.write (some (7, node)) user 3 0) = some (3, [], s) := by
      simp only [exec, @tdd_write_empty (tdd_init s₀) 7 node user 3 rfl, Option.map_some]
      rfl
    have h₁ : AnyStep (tdd_init s₀) e₁ s := ⟨hfree, hexec⟩
    obtain ⟨out, hout⟩ := tdd_read_fault hr 3 (by decide : 3 ≠ 0)
    have h₂ : AnyStep s ⟨.read 3 3, -1, out⟩ { s with qhead := n.link } := ⟨trivial, hout⟩
    refine ⟨_, _, _, _, .snoc .nil h₁, h₂, rfl, rfl, ⟨_, hr, hmsg⟩, ⟨_, hr.unlink, rfl⟩, ?_, fun h ↦ ?_⟩
    · show Function.update (fun _ ↦ none) 7 (some n) 7 ≠ none
      rw [Function.update_self]
      exact Option.some_ne_none _
    · cases (failsCleanly_iff ⟨_, hr, hmsg⟩ h₂).mpr h (by decide)
  · obtain ⟨b, hb⟩ := @tdd_write_fault (tdd_init s₀) 7 node user 3 3 (by decide)
    let t : State := { tdd_init s₀ with heap := Function.update (tdd_init s₀).heap 7 (some b) }
    have hexec : exec (tdd_init s₀) (.write (some (7, node)) user 3 3) = some (-ENOMEM, [], t) := by
      simp only [exec, hb, Option.map_some]
      rfl
    have h₁ : AnyStep (tdd_init s₀) ⟨.write (some (7, node)) user 3 3, -ENOMEM, []⟩ t := ⟨hfree, hexec⟩
    refine ⟨_, _, h₁, rfl, rfl, ?_, fun h ↦ ?_⟩
    · show Function.update (tdd_init s₀).heap 7 (some b) 7 ≠ none
      rw [Function.update_self]
      exact Option.some_ne_none _
    · cases (failsCleanly_iff ⟨[], hempty, rfl⟩ h₁).mpr h (by decide)

end OK210Drivers.Tdd
