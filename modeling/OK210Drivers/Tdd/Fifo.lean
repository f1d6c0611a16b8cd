import OK210Drivers.Library.Fifo
import OK210Drivers.Tdd.Driver

/-!
# The tdd queue is a FIFO of messages

`qtail` is only meaningful while `qhead` is not null: after the last message is read it still points
to the freed node, and `kmalloc` may hand that address out again.  The representation invariant
therefore says nothing about `qtail` on an empty chain, and `tdd_write` never looks at it there.
-/

open Library

namespace OK210Drivers.Tdd

def TddBuf.message (b : TddBuf) : List UInt8 := b.buffer.load 0 b.buf_size

-- The nodes of the queue, from `qhead` on; `qtail` names the last one when there is one.
structure Represents (s : State) (nodes : List (Addr × TddBuf)) : Prop where
  chain : Chain TddBuf.link s.heap s.qhead nodes
  nodup : (nodes.map Prod.fst).Nodup
  tail : ∀ x ∈ nodes.getLast?, s.qtail = some x.1

def messages (nodes : List (Addr × TddBuf)) : List (List UInt8) := nodes.map fun x ↦ x.2.message

theorem represents_tdd_init (s : State) : Represents (tdd_init s) [] :=
  ⟨rfl, List.nodup_nil, by simp⟩

-- The node `tdd_write` builds, before its link is set by a later write.
def newNode (garbage : TddBuf) (user : Mem UInt8) (len : Nat) : TddBuf :=
  ⟨len, copy_from_user garbage.buffer user len 0, none⟩

theorem newNode_message (garbage : TddBuf) (user : Mem UInt8) (len : Nat) :
    (newNode garbage user len).message = user.load 0 len := by
  have hb : copy_from_user garbage.buffer user len 0 = garbage.buffer.store 0 (user.load 0 len) := by
    simp only [copy_from_user, Nat.sub_zero, Nat.min_zero, List.replicate_zero, List.append_nil]
  simp only [TddBuf.message, newNode, hb]
  exact Mem.load_store_same_of_eq _ _ _ _ (Mem.load_length ..)

/-! ## What each call does to the queue -/

theorem tdd_write_empty {s : State} {ptr : Addr} (garbage : TddBuf) (user : Mem UInt8) (count : Nat)
    (hq : s.qhead = none) :
    tdd_write s (some (ptr, garbage)) user count 0 = some (↑(min count MAX_BUF),
      { s with
        heap := Function.update s.heap ptr (some (newNode garbage user (min count MAX_BUF)))
        qhead := some ptr
        qtail := some ptr }) := by
  have hlen : (if count < MAX_BUF then count else MAX_BUF) = min count MAX_BUF := by
    split <;> omega
  simp [tdd_write, hq, hlen, Heap.alloc, Heap.modify, newNode]

theorem tdd_write_linked {s : State} {ptr a : Addr} {n : TddBuf} (garbage : TddBuf)
    (user : Mem UInt8) (count : Nat) (hq : s.qhead ≠ none) (hfree : s.heap ptr = none)
    (ht : s.qtail = some a) (ha : s.heap a = some n) :
    tdd_write s (some (ptr, garbage)) user count 0 = some (↑(min count MAX_BUF),
      { s with
        heap := Function.update (Function.update s.heap a (some { n with link := some ptr })) ptr
          (some (newNode garbage user (min count MAX_BUF)))
        qtail := some ptr }) := by
  have hlen : (if count < MAX_BUF then count else MAX_BUF) = min count MAX_BUF := by
    split <;> omega
  have hne : a ≠ ptr := by rintro rfl; rw [ha] at hfree; cases hfree
  simp [tdd_write, hq, hlen, ht, Heap.alloc, Heap.modify, newNode, ha, hne, hne.symm,
    Function.update_comm hne]

-- The last step before `Represents`: what `getLast?` and the chain say about `qtail`.
theorem Represents.last {s : State} {nodes : List (Addr × TddBuf)} (hr : Represents s nodes)
    (hq : s.qhead ≠ none) :
    ∃ l a n, nodes = l ++ [(a, n)] ∧ s.qtail = some a ∧ s.heap a = some n := by
  have hne : nodes ≠ [] := fun h ↦ hq (hr.chain.eq_nil_iff.mp h)
  obtain ⟨l, ⟨a, n⟩, rfl⟩ := (List.eq_nil_or_concat' nodes).resolve_left hne
  exact ⟨l, a, n, rfl, hr.tail (a, n) (by simp), hr.chain.allocated (a, n) (by simp)⟩

/-- A successful `tdd_write` appends its message. -/
theorem tdd_write_represents {s : State} {nodes : List (Addr × TddBuf)} (hr : Represents s nodes)
    {ptr : Addr} (hfree : s.heap ptr = none) (garbage : TddBuf) (user : Mem UInt8) (count : Nat) :
    ∃ t nodes', tdd_write s (some (ptr, garbage)) user count 0 =
        some (↑(min count MAX_BUF), t) ∧ Represents t nodes' ∧
      messages nodes' = messages nodes ++ [user.load 0 (min count MAX_BUF)] := by
  have hmsg := newNode_message garbage user (min count MAX_BUF)
  have hptr : ptr ∉ nodes.map Prod.fst := hr.chain.not_mem_of_free hfree
  by_cases hq : s.qhead = none
  · have hnil : nodes = [] := hr.chain.eq_nil_iff.mpr hq
    subst hnil
    refine ⟨_, [(ptr, newNode garbage user (min count MAX_BUF))],
      tdd_write_empty garbage user count hq, ⟨Chain.singleton rfl, by simp, by simp⟩, ?_⟩
    simp [messages, hmsg]
  · obtain ⟨l, a, n, rfl, ht, ha⟩ := hr.last hq
    refine ⟨_, l ++ [(a, { n with link := some ptr }), (ptr, newNode garbage user (min count MAX_BUF))],
      tdd_write_linked garbage user count hq hfree ht ha,
      ⟨hr.chain.snoc hr.nodup hptr rfl rfl, ?_, by simp⟩, ?_⟩
    · have hnd := hr.nodup
      simp only [List.map_append, List.map_cons, List.map_nil] at hnd hptr ⊢
      rw [show l.map Prod.fst ++ [a, ptr] = (l.map Prod.fst ++ [a]) ++ [ptr] by simp]
      exact List.nodup_append.mpr ⟨hnd, List.nodup_singleton _, by
        rintro x hx y hy rfl
        rw [List.mem_singleton] at hy
        exact hptr (hy ▸ hx)⟩
    · have hlast : ({ n with link := some ptr } : TddBuf).message = n.message := rfl
      simp [messages, hmsg, hlast]

theorem tdd_read_empty {s : State} {nodes : List (Addr × TddBuf)} (hr : Represents s nodes)
    (hnil : nodes = []) (count left : Nat) : tdd_read s count left = some (-ENODATA, [], s) := by
  rw [tdd_read, if_pos (hr.chain.eq_nil_iff.mp hnil)]

/-- A successful `tdd_read` removes the oldest message and delivers the part that was asked for. -/
theorem tdd_read_represents {s : State} {a : Addr} {n : TddBuf} {nodes : List (Addr × TddBuf)}
    (hr : Represents s ((a, n) :: nodes)) (count : Nat) :
    ∃ t, tdd_read s count 0 = some (↑(min count n.message.length), n.message.take count, t) ∧
      Represents t nodes := by
  obtain ⟨hhead, hnode, hrest⟩ := hr.chain
  have hnd := hr.nodup
  simp only [List.map_cons, List.nodup_cons] at hnd
  have hlen : (if count < n.buf_size then count else n.buf_size) = min count n.message.length := by
    simp only [TddBuf.message, Mem.load_length]
    split <;> omega
  have hout : copy_to_user n.buffer (min count n.message.length) 0 = n.message.take count := by
    rw [copy_to_user, TddBuf.message, Mem.take_load, Mem.load_length, Nat.sub_zero]
  refine ⟨{ s with heap := Function.update s.heap a none, qhead := n.link }, ?_, ?_, hnd.2, ?_⟩
  · simp only [tdd_read, hhead, Heap.read_some, hnode, Heap.free_some hnode, Option.bind_eq_bind,
      Option.bind_some, reduceCtorEq, if_false, ne_eq, not_true_eq_false, hlen, hout]
  · exact hrest.update_of_not_mem none hnd.1
  · intro x hx
    apply hr.tail x
    cases nodes with
    | nil => simp at hx
    | cons y nodes => simpa using hx

/-! ## What a call that has returned did -/

section Exec

variable {s t : State} {nodes : List (Addr × TddBuf)} {a ptr : Addr} {n garbage : TddBuf}
  {user : Mem UInt8} {count left : Nat} {ret : Int} {out : List UInt8}

theorem exec_write_none (he : exec s (.write none user count left) = some (ret, out, t)) :
    ret = -ENOMEM ∧ out = [] ∧ t = s := by
  simp only [exec, tdd_write, Option.map_some, Option.some.injEq, Prod.mk.injEq] at he
  exact ⟨he.1.symm, he.2.1.symm, he.2.2.symm⟩

theorem exec_write (hr : Represents s nodes) (hfree : s.heap ptr = none)
    (he : exec s (.write (some (ptr, garbage)) user count 0) = some (ret, out, t)) :
    ret = ↑(min count MAX_BUF) ∧ out = [] ∧ ∃ nodes', Represents t nodes' ∧
      messages nodes' = messages nodes ++ [user.load 0 (min count MAX_BUF)] := by
  obtain ⟨t', nodes', hw, hr', hq⟩ := tdd_write_represents hr hfree garbage user count
  simp only [exec, hw, Option.map_some, Option.some.injEq, Prod.mk.injEq] at he
  obtain ⟨rfl, rfl, rfl⟩ := he
  exact ⟨rfl, rfl, nodes', hr', hq⟩

theorem exec_read_nil (hr : Represents s [])
    (he : exec s (.read count left) = some (ret, out, t)) :
    ret = -ENODATA ∧ out = [] ∧ t = s := by
  simp only [exec, tdd_read_empty hr rfl, Option.some.injEq, Prod.mk.injEq] at he
  exact ⟨he.1.symm, he.2.1.symm, he.2.2.symm⟩

theorem exec_read_cons (hr : Represents s ((a, n) :: nodes))
    (he : exec s (.read count 0) = some (ret, out, t)) :
    ret = ↑(min count n.message.length) ∧ out = n.message.take count ∧ Represents t nodes := by
  obtain ⟨t', hd, hr'⟩ := tdd_read_represents hr count
  simp only [exec, hd, Option.some.injEq, Prod.mk.injEq] at he
  obtain ⟨rfl, rfl, rfl⟩ := he
  exact ⟨rfl, rfl, hr'⟩

end Exec

/-! ## The device refines the abstract queue -/

-- Which abstract step a call is: a failing call leaves the queue as it was.
def Event.Refines (e : Event) : Library.Fifo.Event (List UInt8) → Prop
  | .enqueue m => e.written? = some m ∧ e.delivered? = none
  | .dequeue m => e.written? = none ∧ ∃ r, e.delivered? = some r ∧ r.out = m.take r.count ∧
      r.ret = ↑(min r.count m.length)
  | .idle => e.written? = none ∧ e.delivered? = none

def Queued (s : State) (q : List (List UInt8)) : Prop :=
  ∃ nodes, Represents s nodes ∧ messages nodes = q

theorem queued_write {s : State} {q : List (List UInt8)} (hr : Queued s q)
    {mem : Option (Addr × TddBuf)} {user : Mem UInt8} {count : Nat} {ret : Int} {out : List UInt8}
    {t : State} (hfree : ∀ x ∈ mem, s.heap x.1 = none)
    (he : exec s (.write mem user count 0) = some (ret, out, t)) :
    ∃ d q', Library.Fifo.Step q d q' ∧ (Event.mk (.write mem user count 0) ret out).Refines d ∧
      Queued t q' := by
  obtain ⟨nodes, hr, rfl⟩ := hr
  cases mem with
  | none =>
    obtain ⟨rfl, rfl, rfl⟩ := exec_write_none he
    refine ⟨.idle, _, .idle _, ?_, nodes, hr, rfl⟩
    simp [Event.Refines, Event.written?, Event.delivered?, ENOMEM]
  | some x =>
    obtain ⟨rfl, rfl, nodes', hr', hq⟩ := exec_write hr (hfree x rfl) he
    refine ⟨.enqueue _, _, .enqueue _ _, ?_, nodes', hr', hq⟩
    simp [Event.Refines, Event.written?, Event.delivered?]

theorem queued_read {s : State} {q : List (List UInt8)} (hr : Queued s q) {count : Nat} {ret : Int}
    {out : List UInt8} {t : State} (he : exec s (.read count 0) = some (ret, out, t)) :
    ∃ d q', Library.Fifo.Step q d q' ∧ (Event.mk (.read count 0) ret out).Refines d ∧
      Queued t q' := by
  obtain ⟨nodes, hr, rfl⟩ := hr
  cases nodes with
  | nil =>
    obtain ⟨rfl, rfl, rfl⟩ := exec_read_nil hr he
    refine ⟨.idle, _, .idle _, ?_, [], hr, rfl⟩
    simp [Event.Refines, Event.written?, Event.delivered?, ENODATA]
  | cons x nodes =>
    obtain ⟨a, n⟩ := x
    obtain ⟨rfl, rfl, hr'⟩ := exec_read_cons hr he
    refine ⟨.dequeue n.message, _, .dequeue _ _, ?_, nodes, hr', rfl⟩
    have hpos : (0 : Int) ≤ ↑(min count n.message.length) := Int.natCast_nonneg _
    refine ⟨rfl, ⟨count, ↑(min count n.message.length), n.message.take count⟩, ?_, rfl, rfl⟩
    simp only [Event.delivered?, if_pos hpos]

theorem tdd_simulates {s : State} {e : Event} {t : State} {q : List (List UInt8)} (hr : Queued s q)
    (hs : Step s e t) : ∃ d q', Library.Fifo.Step q d q' ∧ e.Refines d ∧ Queued t q' := by
  obtain ⟨⟨mem, user, count, left⟩ | ⟨count, left⟩, ret, out⟩ := e
  · obtain ⟨hfree, hcopy, he⟩ := hs
    obtain rfl : left = 0 := hcopy
    exact queued_write hr hfree he
  · obtain ⟨_, hcopy, he⟩ := hs
    obtain rfl : left = 0 := hcopy
    exact queued_read hr he

-- The successful calls of a history, one by one, against the abstract history it refines.
theorem refines_histories {es : List Event} {ds : List (Library.Fifo.Event (List UInt8))}
    (h : List.Forall₂ Event.Refines es ds) :
    writes es = Library.Fifo.enqueued ds ∧
      List.Forall₂ (fun r m ↦ r.out = m.take r.count ∧ r.ret = ↑(min r.count m.length))
        (reads es) (Library.Fifo.dequeued ds) := by
  induction h with
  | nil => exact ⟨rfl, .nil⟩
  | @cons e d es ds he _ ih =>
    simp only [writes, reads, Library.Fifo.enqueued, Library.Fifo.dequeued,
      List.filterMap_cons] at ih ⊢
    cases d with
    | enqueue m =>
      rw [he.1, he.2]
      exact ⟨congrArg (m :: ·) ih.1, ih.2⟩
    | dequeue m =>
      obtain ⟨r, hr, hout⟩ := he.2
      rw [he.1, hr]
      exact ⟨ih.1, .cons hout ih.2⟩
    | idle =>
      rw [he.1, he.2]
      exact ih

/-- Every run of the device is a run of the abstract queue. -/
theorem tdd_refines_fifo {s₀ s : State} {es : List Event} (h : Run Step (tdd_init s₀) es s) :
    ∃ ds q, Run Library.Fifo.Step [] ds q ∧ List.Forall₂ Event.Refines es ds ∧ Queued s q :=
  h.simulate Queued Event.Refines ⟨[], represents_tdd_init s₀, rfl⟩
    fun _ _ _ _ hr hs ↦ tdd_simulates hr hs

-- No admissible call uses a node that is not allocated.
theorem exec_isSome {s : State} {q : List (List UInt8)} (hr : Queued s q) (c : Call)
    (hfree : c.FreshIn s) (hcopy : c.CopyOk) : (exec s c).isSome := by
  obtain ⟨nodes, hr, rfl⟩ := hr
  obtain ⟨mem, user, count, left⟩ | ⟨count, left⟩ := c
  · obtain rfl : left = 0 := hcopy
    obtain _ | ⟨ptr, garbage⟩ := mem
    · rfl
    · obtain ⟨t, nodes', hw, _⟩ := tdd_write_represents hr (hfree _ rfl) garbage user count
      simp [exec, hw]
  · obtain rfl : left = 0 := hcopy
    cases nodes with
    | nil => simp [exec, tdd_read_empty hr rfl]
    | cons x nodes =>
      obtain ⟨t, hd, _⟩ := tdd_read_represents (n := x.2) (a := x.1) hr count
      simp [exec, hd]

/-- A read reports `-ENODATA` exactly on the empty queue. -/
theorem tdd_read_enodata_iff {s : State} {q : List (List UInt8)} (hr : Queued s q) {count : Nat}
    {ret : Int} {out : List UInt8} {t : State}
    (he : exec s (.read count 0) = some (ret, out, t)) : ret = -ENODATA ↔ q = [] := by
  obtain ⟨nodes, hr, rfl⟩ := hr
  cases nodes with
  | nil =>
    simp [(exec_read_nil hr he).1, messages]
  | cons x nodes =>
    have hret : ret ≠ -ENODATA := by
      rw [(exec_read_cons (n := x.2) (a := x.1) hr he).1, ENODATA]
      omega
    simp [hret, messages]

/-- Over every run from `tdd_init`: no call touches a freed node, reads deliver the messages of the
writes in order, `-ENODATA` means that nothing is left to read and a failed `kmalloc` changes
nothing. -/
theorem tdd_queue_fifo (s₀ : State) {es : List Event} {s : State}
    (h : Run Step (tdd_init s₀) es s) :
    (∀ c : Call, c.FreshIn s → c.CopyOk → (exec s c).isSome) ∧
    (reads es).length ≤ (writes es).length ∧
    (∀ (k : Nat) (r : Delivery) (w : List UInt8), (reads es)[k]? = some r →
      (writes es)[k]? = some w → r.out = w.take r.count ∧ r.ret = ↑(min r.count w.length)) ∧
    (∀ count ret out t, exec s (.read count 0) = some (ret, out, t) →
      (ret = -ENODATA ↔ (reads es).length = (writes es).length)) ∧
    (∀ user count left, exec s (.write none user count left) = some (-ENOMEM, [], s)) := by
  obtain ⟨ds, q, hrun, hE, hq⟩ := tdd_refines_fifo h
  obtain ⟨hw, hr⟩ := refines_histories hE
  have hlen := hr.length_eq
  have hle : (reads es).length ≤ (writes es).length := by
    rw [hlen, hw, Library.Fifo.run_enqueued hrun, List.length_append]
    omega
  refine ⟨fun c ↦ exec_isSome hq c, hle, ?_, ?_, fun _ _ _ ↦ rfl⟩
  · intro k r w hk hwk
    obtain ⟨hkr, rfl⟩ := List.getElem?_eq_some_iff.mp hk
    have hkd : k < (Library.Fifo.dequeued ds).length := by rwa [← hlen]
    rw [hw, Library.Fifo.run_dequeued_getElem? hrun hkd] at hwk
    obtain ⟨_, rfl⟩ := List.getElem?_eq_some_iff.mp hwk
    exact (List.forall₂_iff_get.mp hr).2 k hkr hkd
  · intro count ret out t he
    rw [tdd_read_enodata_iff hq he, Library.Fifo.run_eq_nil_iff hrun, hlen, hw]

-- Two writes into the same address, the second one after the queue was drained.
theorem tdd_queue_fifo_reused :
    let s₀ : State := ⟨fun _ ↦ none, none, none, false, false⟩
    let node : TddBuf := ⟨9, fun _ ↦ 0, some 3⟩
    let user : Mem UInt8 := fun i ↦ UInt8.ofNat (i + 1)
    let es : List Event := [⟨.write (some (7, node)) user 3 0, 3, []⟩, ⟨.read 2 0, 2, [1, 2]⟩,
      ⟨.write (some (7, node)) user 1 0, 1, []⟩]
    ∃ s, Run Step (tdd_init s₀) es s ∧ s.qtail = some 7 ∧
      (∀ c : Call, c.FreshIn s → c.CopyOk → (exec s c).isSome) := by
  intro s₀ node user es
  obtain ⟨s, hrun, ht⟩ : ∃ s, Run Step (tdd_init s₀) es s ∧ s.qtail = some 7 :=
    ⟨_, .cons ⟨by simp [Call.FreshIn, s₀, tdd_init], rfl, rfl⟩
      (.cons ⟨trivial, rfl, rfl⟩ (.cons ⟨by simp [Call.FreshIn], rfl, rfl⟩ .nil)), rfl⟩
  exact ⟨s, hrun, ht, (tdd_queue_fifo s₀ hrun).1⟩

end OK210Drivers.Tdd
