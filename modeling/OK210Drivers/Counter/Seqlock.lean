import Mathlib.Algebra.Group.Nat.Defs
import OK210Drivers.Counter.Rwlock

/-!
# A counter under a sequence lock

The threads of lab35: the writers increment `shared_res` between two increments of the lock's sequence, and
a reader starts over until the sequence has stayed what it was.  A reader can be misled only when the
sequence comes round to the same number while it is reading.
-/

open Library

namespace OK210Drivers.Counter.Lab35

/-- `seqlock_t`: its sequence, and who holds its spin lock. -/
structure SeqLock (τ : Type*) where
  sequence : BitVec 32
  lock : Option τ

structure Shared (τ : Type*) where
  my_seq_lock : SeqLock τ
  shared_res : BitVec 32

-- The statement that a thread is at.
inductive Pc
  | sleep
  | lock
  | enter
  | load
  | store
  | print
  | print_seq
  | leave
  | unlock
  | begin
  | retry
  | finished
  deriving DecidableEq

/-- A writer holds the spin lock. -/
def Pc.inside : Pc → Bool
  | .enter | .load | .store | .print | .print_seq | .leave | .unlock => true
  | .sleep | .lock | .begin | .retry | .finished => false

/-- A reader is between `read_seqbegin` and `read_seqretry`. -/
def Pc.reading : Pc → Bool
  | .load | .print | .print_seq | .retry => true
  | .sleep | .lock | .enter | .store | .leave | .unlock | .begin | .finished => false

structure Local where
  pc : Pc
  val : BitVec 32
  seq_num : BitVec 32

/-- What a step does besides moving on: it increments the sequence, it starts to read, it prints, or it
leaves the loop of a reader or takes it again. -/
inductive Action
  | quiet
  | bump
  | begin
  | print (v : BitVec 32)
  | print_seq (q : BitVec 32)
  | again
  | accept (v : BitVec 32)

abbrev Event (τ : Type*) := τ × Action

section Threads

variable {τ : Type*}

def SeqLock.bump (k : SeqLock τ) : SeqLock τ := { k with sequence := k.sequence + 1#32 }

/-- `MyPrintk_b` and `MyPrintk_c`. -/
inductive MyPrintk_b (t : τ) : Shared τ → Local → Action → Shared τ → Local → Prop
  | stop {s l} : l.pc = .sleep → MyPrintk_b t s l .quiet s { l with pc := .finished }
  | sleep {s l} : l.pc = .sleep → MyPrintk_b t s l .quiet s { l with pc := .lock }
  -- `write_seqlock(&my_seq_lock)`
  | lock {s l} : l.pc = .lock → s.my_seq_lock.lock = none →
      MyPrintk_b t s l .quiet { s with my_seq_lock := { s.my_seq_lock with lock := some t } }
        { l with pc := .enter }
  | enter {s l} : l.pc = .enter →
      MyPrintk_b t s l .bump { s with my_seq_lock := s.my_seq_lock.bump } { l with pc := .load }
  -- `shared_res++`
  | load {s l} : l.pc = .load → MyPrintk_b t s l .quiet s { l with pc := .store, val := s.shared_res }
  | store {s l} : l.pc = .store →
      MyPrintk_b t s l .quiet { s with shared_res := l.val + 1#32 } { l with pc := .print }
  | print {s l} : l.pc = .print →
      MyPrintk_b t s l (.print s.shared_res) s { l with pc := .print_seq }
  | print_seq {s l} : l.pc = .print_seq →
      MyPrintk_b t s l (.print_seq s.my_seq_lock.sequence) s { l with pc := .leave }
  -- `write_sequnlock(&my_seq_lock)`
  | leave {s l} : l.pc = .leave →
      MyPrintk_b t s l .bump { s with my_seq_lock := s.my_seq_lock.bump } { l with pc := .unlock }
  | unlock {s l} : l.pc = .unlock →
      MyPrintk_b t s l .quiet { s with my_seq_lock := { s.my_seq_lock with lock := none } }
        { l with pc := .sleep }

/-- `MyPrintk_a`. -/
inductive MyPrintk_a (t : τ) : Shared τ → Local → Action → Shared τ → Local → Prop
  | stop {s l} : l.pc = .sleep → MyPrintk_a t s l .quiet s { l with pc := .finished }
  | sleep {s l} : l.pc = .sleep → MyPrintk_a t s l .quiet s { l with pc := .begin }
  -- `read_seqbegin(&my_seq_lock)`, which waits for an even number
  | wait {s l} : l.pc = .begin → s.my_seq_lock.sequence &&& 1#32 ≠ 0#32 → MyPrintk_a t s l .quiet s l
  | begin {s l} : l.pc = .begin → s.my_seq_lock.sequence &&& 1#32 = 0#32 →
      MyPrintk_a t s l .begin s { l with pc := .load, seq_num := s.my_seq_lock.sequence }
  | load {s l} : l.pc = .load → MyPrintk_a t s l .quiet s { l with pc := .print, val := s.shared_res }
  | print {s l} : l.pc = .print → MyPrintk_a t s l (.print l.val) s { l with pc := .print_seq }
  | print_seq {s l} : l.pc = .print_seq →
      MyPrintk_a t s l (.print_seq s.my_seq_lock.sequence) s { l with pc := .retry }
  -- `read_seqretry(&my_seq_lock, seq_num)`
  | again {s l} : l.pc = .retry → s.my_seq_lock.sequence ≠ l.seq_num →
      MyPrintk_a t s l .again s { l with pc := .begin }
  | accept {s l} : l.pc = .retry → s.my_seq_lock.sequence = l.seq_num →
      MyPrintk_a t s l (.accept l.val) s { l with pc := .sleep }

variable (role : τ → Role)

def thread (t : τ) : Shared τ → Local → Action → Shared τ → Local → Prop :=
  match role t with
  | .reader => MyPrintk_a t
  | .writer => MyPrintk_b t

/-- `init_kthread` when the threads of `started` could be started. -/
def init_kthread (started : τ → Bool) : Threads τ (Shared τ) Local where
  shared := ⟨⟨0, none⟩, 0⟩
  loc t := ⟨if started t then .sleep else .finished, 0, 0⟩

/-- What a step says of the counter: the lines of the writers, and what the readers are left with. -/
def op : Event τ → Option (CounterOp 32)
  | (t, .print v) => if role t = .writer then some (.add v) else none
  | (_, .accept v) => some (.get v)
  | (_, _) => none

def isAdd : Event τ → Bool
  | (t, .print _) => role t = .writer
  | (_, _) => false

def isBump : Event τ → Bool
  | (_, .bump) => true
  | (_, _) => false

/-- How many numbers the writers have printed. -/
def adds (es : List (Event τ)) : Nat := es.countP (isAdd role)

def total (es : List (Event τ)) : BitVec 32 := BitVec.ofNat 32 (adds role es)

/-- How often the sequence has been incremented. -/
def bumps (es : List (Event τ)) : Nat := es.countP isBump

variable [DecidableEq τ]

def isBegin (t : τ) : Event τ → Bool
  | (u, .begin) => u = t
  | (_, _) => false

def isAgain (t : τ) : Event τ → Bool
  | (u, .again) => u = t
  | (_, _) => false

/-- How often the sequence has been incremented since a reader has last started to read. -/
def bumpsSince (t : τ) (es : List (Event τ)) : Nat := bumps (afterLast (isBegin t) es)

/-- How often a reader has had to start over. -/
def agains (t : τ) (es : List (Event τ)) : Nat := es.countP (isAgain t)

/-- What every step so far has said: the writers have counted and have shown the sequence that belongs to
their number, and a reader has left its loop when the sequence had come round to the same number, with the
right value unless it had come round all the way. -/
structure Faithful (pre : List (Event τ)) (e : Event τ) : Prop where
  counts : ∀ d, op role e = some d → (∀ v, e.2 = .accept v → bumpsSince e.1 pre < 2 ^ 32) →
    CounterStep (total role pre) d (total role (pre ++ [e]))
  shows : ∀ q, e.2 = .print_seq q → role e.1 = .writer → q = BitVec.ofNat 32 (2 * adds role pre - 1)
  again : e.2 = .again → ¬2 ^ 32 ∣ bumpsSince e.1 pre
  accept : ∀ v, e.2 = .accept v → 2 ^ 32 ∣ bumpsSince e.1 pre

/-- The sequence is even while no writer is at work, and belongs to the counter then. -/
structure Guarded (es : List (Event τ)) (s : Shared τ) : Prop where
  sequence : s.my_seq_lock.sequence = BitVec.ofNat 32 (bumps es)
  free : s.my_seq_lock.lock = none → bumps es % 2 = 0
  even : bumps es % 2 = 0 → bumps es = 2 * adds role es ∧ s.shared_res = total role es
  log : Always (Faithful role) es

/-- The counter and the sequence when a writer holds the lock, after `n` numbers and `b` increments of the
sequence. -/
def InWriter (n b : Nat) (shared_res : BitVec 32) (l : Local) : Prop :=
  match l.pc with
  | .enter | .unlock => b = 2 * n ∧ shared_res = BitVec.ofNat 32 n
  | .load => b = 2 * n + 1 ∧ shared_res = BitVec.ofNat 32 n
  | .store => b = 2 * n + 1 ∧ l.val = BitVec.ofNat 32 n
  | .print => b = 2 * n + 1 ∧ shared_res = BitVec.ofNat 32 (n + 1)
  | .print_seq | .leave => b + 1 = 2 * n ∧ shared_res = BitVec.ofNat 32 n
  | _ => False

structure Writing (es : List (Event τ)) (t : τ) (s : Shared τ) (l : Local) : Prop where
  holds : s.my_seq_lock.lock = some t ↔ l.pc.inside = true
  counter : l.pc.inside = true → InWriter (adds role es) (bumps es) s.shared_res l

/-- What a reader has in its loop. -/
structure Attempt (es : List (Event τ)) (t : τ) (s : Shared τ) (l : Local) : Prop where
  le : agains t es + bumpsSince t es ≤ bumps es
  even : (bumps es - bumpsSince t es) % 2 = 0
  seq_num : l.seq_num = BitVec.ofNat 32 (bumps es - bumpsSince t es)
  val : l.pc ≠ .load → bumpsSince t es = 0 → l.val = s.shared_res

structure Reading (es : List (Event τ)) (t : τ) (s : Shared τ) (l : Local) : Prop where
  attempt : l.pc.reading = true → Attempt es t s l
  agains : agains t es ≤ bumps es

def Known (es : List (Event τ)) (t : τ) (s : Shared τ) (l : Local) : Prop :=
  match role t with
  | .reader => Reading es t s l
  | .writer => Writing role es t s l

end Threads

section Counts

variable {τ : Type*} {role : τ → Role} {es : List (Event τ)} {e : Event τ}

theorem adds_snoc : adds role (es ++ [e]) = adds role es + if isAdd role e = true then 1 else 0 := by
  rw [adds, List.countP_append, List.countP_singleton, adds]

theorem bumps_snoc : bumps (es ++ [e]) = bumps es + if isBump e = true then 1 else 0 := by
  rw [bumps, List.countP_append, List.countP_singleton, bumps]

theorem adds_print {t : τ} {v : BitVec 32} (ht : role t = .writer) :
    adds role (es ++ [(t, .print v)]) = adds role es + 1 := by
  rw [adds_snoc, if_pos (by simp [isAdd, ht])]

theorem bumps_bump {t : τ} : bumps (es ++ [(t, .bump)]) = bumps es + 1 := bumps_snoc

theorem adds_same (h : isAdd role e = false) : adds role (es ++ [e]) = adds role es := by
  rw [adds_snoc, h]
  rfl

theorem bumps_same (h : isBump e = false) : bumps (es ++ [e]) = bumps es := by
  rw [bumps_snoc, h]
  rfl

section Held

variable {t : τ} {s : Shared τ} {l : Local}

theorem Writing.at (h : Writing role es t s l) {pc : Pc} (hpc : l.pc = pc) (hin : pc.inside = true) :
    s.my_seq_lock.lock = some t ∧ InWriter (adds role es) (bumps es) s.shared_res l :=
  ⟨h.holds.mpr (hpc ▸ hin), h.counter (hpc ▸ hin)⟩

theorem Writing.outside (h : Writing role es t s l) {pc : Pc} (hpc : l.pc = pc)
    (hout : pc.inside = false) : s.my_seq_lock.lock ≠ some t := by
  intro hheld
  rw [h.holds, hpc, hout] at hheld
  cases hheld

end Held

variable [DecidableEq τ] {t u : τ}

theorem agains_snoc : agains t (es ++ [e]) = agains t es + if isAgain t e = true then 1 else 0 := by
  rw [agains, List.countP_append, List.countP_singleton, agains]

theorem agains_again : agains t (es ++ [(t, .again)]) = agains t es + 1 := by
  rw [agains_snoc, if_pos (by simp [isAgain])]

theorem agains_same (h : isAgain t e = false) : agains t (es ++ [e]) = agains t es := by
  rw [agains_snoc, h]
  rfl

theorem bumpsSince_begin : bumpsSince t (es ++ [(t, .begin)]) = 0 := by
  rw [bumpsSince, afterLast_snoc_pos (by simp [isBegin])]
  rfl

theorem bumpsSince_snoc (h : isBegin t e = false) :
    bumpsSince t (es ++ [e]) = bumpsSince t es + if isBump e = true then 1 else 0 := by
  rw [bumpsSince, afterLast_snoc_neg h, bumps_snoc, bumpsSince]

theorem bumpsSince_same (hbegin : isBegin t e = false) (hbump : isBump e = false) :
    bumpsSince t (es ++ [e]) = bumpsSince t es := by
  rw [bumpsSince_snoc hbegin, hbump]
  rfl

theorem isBegin_other (hne : u ≠ t) (a : Action) : isBegin u (t, a) = false := by
  cases a <;> simp [isBegin, hne.symm]

theorem isAgain_other (hne : u ≠ t) (a : Action) : isAgain u (t, a) = false := by
  cases a <;> simp [isAgain, hne.symm]

end Counts

section Writers

variable {τ : Type*} [DecidableEq τ] {role : τ → Role} {es : List (Event τ)} {t u : τ} {s s' : Shared τ}
  {l l' m : Local} {a : Action}

theorem faithful_quiet : Faithful role es (t, .quiet) := ⟨fun _ hd ↦ (by cases hd), nofun, nofun, nofun⟩

theorem faithful_bump : Faithful role es (t, .bump) := ⟨fun _ hd ↦ (by cases hd), nofun, nofun, nofun⟩

theorem faithful_begin : Faithful role es (t, .begin) := ⟨fun _ hd ↦ (by cases hd), nofun, nofun, nofun⟩

/-- A step that neither counts nor touches the sequence. -/
theorem Guarded.move {e : Event τ} (h : Guarded role es s) (he : Faithful role es e)
    (hadd : isAdd role e = false) (hbump : isBump e = false)
    (hseq : s'.my_seq_lock.sequence = s.my_seq_lock.sequence)
    (hfree : s'.my_seq_lock.lock = none → bumps es % 2 = 0)
    (hres : bumps es % 2 = 0 → s'.shared_res = s.shared_res) : Guarded role (es ++ [e]) s' where
  sequence := by rw [hseq, h.sequence, bumps_same hbump]
  free := by rwa [bumps_same hbump]
  even := by
    rw [bumps_same hbump, total, adds_same hadd]
    intro heven
    rw [hres heven]
    exact h.even heven
  log := always_snoc.mpr ⟨h.log, he⟩

/-- The sequence is incremented by the writer that holds the lock. -/
theorem Guarded.bump (h : Guarded role es s) (hheld : s.my_seq_lock.lock = some t)
    (heven : (bumps es + 1) % 2 = 0 → bumps es + 1 = 2 * adds role es ∧ s.shared_res = total role es) :
    Guarded role (es ++ [(t, .bump)]) { s with my_seq_lock := s.my_seq_lock.bump } where
  sequence := by
    show s.my_seq_lock.sequence + 1#32 = _
    rw [h.sequence, bumps_bump, BitVec.ofNat_add]
  free hnone := by
    have hnone : s.my_seq_lock.lock = none := hnone
    rw [hheld] at hnone
    cases hnone
  even := by
    rw [bumps_bump, total, adds_same rfl]
    exact heven
  log := always_snoc.mpr ⟨h.log, faithful_bump⟩

/-- The line of a writer. -/
theorem Guarded.writer_line (h : Guarded role es s) (ht : role t = .writer)
    (hheld : s.my_seq_lock.lock = some t) (hodd : bumps es = 2 * adds role es + 1)
    (hval : s.shared_res = BitVec.ofNat 32 (adds role es + 1)) :
    Guarded role (es ++ [(t, .print s.shared_res)]) s where
  sequence := by rw [h.sequence, bumps_same rfl]
  free hnone := by
    rw [hheld] at hnone
    cases hnone
  even := by
    rw [bumps_same rfl, hodd]
    omega
  log := by
    refine always_snoc.mpr ⟨h.log, fun d hd _ ↦ ?_, nofun, nofun, nofun⟩
    rw [op, if_pos ht] at hd
    cases hd
    rw [total, total, adds_print ht, hval]
    exact CounterStep.add_ofNat _

theorem writer_step (hG : Guarded role es s) (ht : role t = .writer) (hL : Writing role es t s l)
    (hst : MyPrintk_b t s l a s' l') :
    Guarded role (es ++ [(t, a)]) s' ∧ Writing role (es ++ [(t, a)]) t s' l' := by
  cases hst with
  | stop hpc =>
    exact ⟨hG.move faithful_quiet rfl rfl rfl hG.free fun _ ↦ rfl,
      iff_of_false (hL.outside hpc rfl) nofun, nofun⟩
  | sleep hpc =>
    exact ⟨hG.move faithful_quiet rfl rfl rfl hG.free fun _ ↦ rfl,
      iff_of_false (hL.outside hpc rfl) nofun, nofun⟩
  | lock hpc hnone =>
    refine ⟨hG.move faithful_quiet rfl rfl rfl nofun fun _ ↦ rfl, iff_of_true rfl rfl, fun _ ↦ ?_⟩
    rw [adds_same rfl, bumps_same rfl]
    exact hG.even (hG.free hnone)
  | enter hpc =>
    obtain ⟨hheld, hat⟩ := hL.at hpc rfl
    simp only [InWriter, hpc] at hat
    refine ⟨hG.bump hheld fun heven ↦ by omega, iff_of_true hheld rfl, fun _ ↦ ?_⟩
    rw [adds_same rfl, bumps_bump]
    exact ⟨congrArg (· + 1) hat.1, hat.2⟩
  | load hpc =>
    obtain ⟨hheld, hat⟩ := hL.at hpc rfl
    simp only [InWriter, hpc] at hat
    refine ⟨hG.move faithful_quiet rfl rfl rfl hG.free fun _ ↦ rfl, iff_of_true hheld rfl, fun _ ↦ ?_⟩
    rw [adds_same rfl, bumps_same rfl]
    exact hat
  | store hpc =>
    obtain ⟨hheld, hat⟩ := hL.at hpc rfl
    simp only [InWriter, hpc] at hat
    refine ⟨hG.move faithful_quiet rfl rfl rfl hG.free fun heven ↦ by omega, iff_of_true hheld rfl,
      fun _ ↦ ?_⟩
    rw [adds_same rfl, bumps_same rfl]
    refine ⟨hat.1, ?_⟩
    show l.val + 1#32 = _
    rw [hat.2, BitVec.ofNat_add]
  | print hpc =>
    obtain ⟨hheld, hat⟩ := hL.at hpc rfl
    simp only [InWriter, hpc] at hat
    refine ⟨hG.writer_line ht hheld hat.1 hat.2, iff_of_true hheld rfl, fun _ ↦ ?_⟩
    rw [adds_print ht, bumps_same rfl]
    exact ⟨by omega, hat.2⟩
  | print_seq hpc =>
    obtain ⟨hheld, hat⟩ := hL.at hpc rfl
    simp only [InWriter, hpc] at hat
    have hseq : s.my_seq_lock.sequence = BitVec.ofNat 32 (2 * adds role es - 1) := by
      rw [hG.sequence]
      exact congrArg _ (by omega)
    have hline : Faithful role es (t, .print_seq s.my_seq_lock.sequence) := by
      refine ⟨fun _ hd ↦ (by cases hd), fun q hq _ ↦ ?_, nofun, nofun⟩
      cases hq
      exact hseq
    refine ⟨hG.move hline rfl rfl rfl hG.free fun _ ↦ rfl, iff_of_true hheld rfl, fun _ ↦ ?_⟩
    rw [adds_same rfl, bumps_same rfl]
    exact hat
  | leave hpc =>
    obtain ⟨hheld, hat⟩ := hL.at hpc rfl
    simp only [InWriter, hpc] at hat
    refine ⟨hG.bump hheld fun _ ↦ hat, iff_of_true hheld rfl, fun _ ↦ ?_⟩
    rw [adds_same rfl, bumps_bump]
    exact hat
  | unlock hpc =>
    obtain ⟨_, hat⟩ := hL.at hpc rfl
    simp only [InWriter, hpc] at hat
    exact ⟨hG.move faithful_quiet rfl rfl rfl (fun _ ↦ by omega) fun _ ↦ rfl,
      iff_of_false nofun nofun, nofun⟩

end Writers

section Readers

variable {τ : Type*} [DecidableEq τ] {role : τ → Role} {es : List (Event τ)} {t u : τ} {s s' : Shared τ}
  {l l' m : Local} {a : Action}

theorem ofNat_even {b : Nat} (h : BitVec.ofNat 32 b &&& 1#32 = 0#32) : b % 2 = 0 := by
  have hand := congrArg BitVec.toNat h
  rw [BitVec.toNat_and, BitVec.toNat_ofNat] at hand
  have hmod : b % 2 ^ 32 % 2 = 0 := (Nat.and_one_is_mod _).symm.trans hand
  omega

/-- The sequence is what it was when it has been incremented a multiple of 2^32 times. -/
theorem ofNat_eq_iff {b k : Nat} (h : k ≤ b) :
    BitVec.ofNat 32 b = BitVec.ofNat 32 (b - k) ↔ 2 ^ 32 ∣ k := by
  rw [← BitVec.toNat_inj, BitVec.toNat_ofNat, BitVec.toNat_ofNat]
  omega

/-- An attempt goes on. -/
theorem Attempt.go (h : Attempt es t s l) (hbegin : isBegin t (t, a) = false)
    (hagain : isAgain t (t, a) = false)
    (hbump : isBump (t, a) = false) (hseq : l'.seq_num = l.seq_num)
    (hval : bumpsSince t es = 0 → l'.val = s.shared_res) : Attempt (es ++ [(t, a)]) t s l' := by
  constructor
  · rw [agains_same hagain, bumpsSince_same hbegin hbump, bumps_same hbump]
    exact h.le
  · rw [bumpsSince_same hbegin hbump, bumps_same hbump]
    exact h.even
  · rw [hseq, bumpsSince_same hbegin hbump, bumps_same hbump]
    exact h.seq_num
  · rw [bumpsSince_same hbegin hbump]
    exact fun _ ↦ hval

theorem faithful_reader_line (ht : role t = .reader) (v : BitVec 32) : Faithful role es (t, .print v) := by
  refine ⟨fun _ hd ↦ ?_, nofun, nofun, nofun⟩
  rw [op, if_neg (by rw [ht]; decide)] at hd
  cases hd

theorem Attempt.again (h : Attempt es t s l) (hG : Guarded role es s)
    (hne : s.my_seq_lock.sequence ≠ l.seq_num) : ¬2 ^ 32 ∣ bumpsSince t es := by
  intro hdvd
  have hle := h.le
  rw [hG.sequence, h.seq_num] at hne
  exact hne ((ofNat_eq_iff (by omega)).mpr hdvd)

theorem Attempt.accept (h : Attempt es t s l) (hG : Guarded role es s)
    (heq : s.my_seq_lock.sequence = l.seq_num) : 2 ^ 32 ∣ bumpsSince t es := by
  have hle := h.le
  rw [hG.sequence, h.seq_num] at heq
  exact (ofNat_eq_iff (by omega)).mp heq

/-- A reader whose attempt no writer has disturbed has the counter. -/
theorem Attempt.value (h : Attempt es t s l) (hG : Guarded role es s) (hpc : l.pc ≠ .load)
    (hnone : bumpsSince t es = 0) : l.val = total role es := by
  have heven := h.even
  rw [h.val hpc hnone]
  exact (hG.even (by omega)).2

theorem reader_step (hG : Guarded role es s) (ht : role t = .reader) (hL : Reading es t s l)
    (hst : MyPrintk_a t s l a s' l') :
    Guarded role (es ++ [(t, a)]) s' ∧ Reading (es ++ [(t, a)]) t s' l' := by
  have hadd : ∀ v, isAdd role (t, .print v) = false := by simp [isAdd, ht]
  have hagains := hL.agains
  cases hst with
  | stop hpc =>
    refine ⟨hG.move faithful_quiet rfl rfl rfl hG.free fun _ ↦ rfl, nofun, ?_⟩
    rwa [agains_same rfl, bumps_same rfl]
  | sleep hpc =>
    refine ⟨hG.move faithful_quiet rfl rfl rfl hG.free fun _ ↦ rfl, nofun, ?_⟩
    rwa [agains_same rfl, bumps_same rfl]
  | wait hpc =>
    refine ⟨hG.move faithful_quiet rfl rfl rfl hG.free fun _ ↦ rfl, ?_, ?_⟩
    · rw [hpc]
      exact nofun
    · rwa [agains_same rfl, bumps_same rfl]
  | begin hpc heven =>
    refine ⟨hG.move faithful_begin rfl rfl rfl hG.free fun _ ↦ rfl, fun _ ↦ ?_, ?_⟩
    · rw [hG.sequence] at heven
      constructor
      · rwa [bumpsSince_begin, agains_same rfl, bumps_same rfl]
      · rw [bumpsSince_begin, bumps_same rfl]
        exact ofNat_even heven
      · rw [bumpsSince_begin, bumps_same rfl]
        exact hG.sequence
      · exact absurd rfl
    · rwa [agains_same rfl, bumps_same rfl]
  | load hpc =>
    have hat := hL.attempt (hpc ▸ rfl)
    refine ⟨hG.move faithful_quiet rfl rfl rfl hG.free fun _ ↦ rfl,
      fun _ ↦ hat.go rfl rfl rfl rfl fun _ ↦ rfl, ?_⟩
    rwa [agains_same rfl, bumps_same rfl]
  | print hpc =>
    have hat := hL.attempt (hpc ▸ rfl)
    refine ⟨hG.move (faithful_reader_line ht _) (hadd _) rfl rfl hG.free fun _ ↦ rfl,
      fun _ ↦ hat.go rfl rfl rfl rfl (hat.val (by rw [hpc]; nofun)), ?_⟩
    rwa [agains_same rfl, bumps_same rfl]
  | print_seq hpc =>
    have hat := hL.attempt (hpc ▸ rfl)
    have hline : Faithful role es (t, .print_seq s.my_seq_lock.sequence) := by
      refine ⟨fun _ hd ↦ (by cases hd), fun _ _ hw ↦ ?_, nofun, nofun⟩
      rw [ht] at hw
      cases hw
    refine ⟨hG.move hline rfl rfl rfl hG.free fun _ ↦ rfl,
      fun _ ↦ hat.go rfl rfl rfl rfl (hat.val (by rw [hpc]; nofun)), ?_⟩
    rwa [agains_same rfl, bumps_same rfl]
  | again hpc hne =>
    have hat := hL.attempt (hpc ▸ rfl)
    have hle := hat.le
    have hdvd := hat.again hG hne
    have hagain : Faithful role es (t, .again) := ⟨fun _ hd ↦ (by cases hd), nofun, fun _ ↦ hdvd, nofun⟩
    refine ⟨hG.move hagain rfl rfl rfl hG.free fun _ ↦ rfl, nofun, ?_⟩
    rw [agains_again, bumps_same rfl]
    omega
  | accept hpc heq =>
    have hat := hL.attempt (hpc ▸ rfl)
    have hdvd := hat.accept hG heq
    have haccept : Faithful role es (t, .accept l.val) := by
      refine ⟨fun d hd hslow ↦ ?_, nofun, nofun, fun _ _ ↦ hdvd⟩
      cases hd
      have hlt := hslow l.val rfl
      have hval := hat.value hG (by rw [hpc]; nofun) (Nat.eq_zero_of_dvd_of_lt hdvd hlt)
      rw [hval, total, total, adds_same rfl]
      exact .get _
    refine ⟨hG.move haccept rfl rfl rfl hG.free fun _ ↦ rfl, nofun, ?_⟩
    rwa [agains_same rfl, bumps_same rfl]

end Readers

section Interference

variable {τ : Type*} {role : τ → Role} {es : List (Event τ)} {t u : τ} {s s' : Shared τ}
  {l l' m : Local} {a : Action}

/-- What a step leaves to another thread: the lock and the counter if that one holds the lock, and to a
reader either all that it has or a higher sequence. -/
structure Spares (role : τ → Role) (u : τ) (es : List (Event τ)) (s : Shared τ) (e : Event τ)
    (s' : Shared τ) : Prop where
  lock : s'.my_seq_lock.lock = some u ↔ s.my_seq_lock.lock = some u
  counter : s.my_seq_lock.lock = some u → s'.shared_res = s.shared_res ∧
    adds role (es ++ [e]) = adds role es ∧ isBump e = false
  res : isBump e = false → bumps es % 2 = 0 → s'.shared_res = s.shared_res

theorem Spares.quiet (e : Event τ) (hadd : isAdd role e = false) (hbump : isBump e = false) :
    Spares role u es s e s :=
  ⟨Iff.rfl, fun _ ↦ ⟨rfl, adds_same hadd, hbump⟩, fun _ _ ↦ rfl⟩

theorem reader_spares (ht : role t = .reader) (hst : MyPrintk_a t s l a s' l') :
    Spares role u es s (t, a) s' := by
  cases hst with
  | stop => exact Spares.quiet _ rfl rfl
  | sleep => exact Spares.quiet _ rfl rfl
  | wait => exact Spares.quiet _ rfl rfl
  | begin => exact Spares.quiet _ rfl rfl
  | load => exact Spares.quiet _ rfl rfl
  | print => exact Spares.quiet _ (by simp [isAdd, ht]) rfl
  | print_seq => exact Spares.quiet _ rfl rfl
  | again => exact Spares.quiet _ rfl rfl
  | accept => exact Spares.quiet _ rfl rfl

theorem writer_spares (hne : u ≠ t) (hL : Writing role es t s l) (hst : MyPrintk_b t s l a s' l') :
    Spares role u es s (t, a) s' := by
  -- the lock is not another thread's while this one holds it
  have hothers : l.pc.inside = true → s.my_seq_lock.lock ≠ some u := by
    intro hin hu
    rw [hL.holds.mpr hin] at hu
    exact hne (Option.some.inj hu).symm
  cases hst with
  | stop => exact Spares.quiet _ rfl rfl
  | sleep => exact Spares.quiet _ rfl rfl
  | lock hpc hnone =>
    refine ⟨iff_of_false (fun hu ↦ hne (Option.some.inj hu).symm) ?_,
      fun _ ↦ ⟨rfl, adds_same rfl, rfl⟩, fun _ _ ↦ rfl⟩
    rw [hnone]
    exact nofun
  | enter hpc => exact ⟨Iff.rfl, fun hu ↦ absurd hu (hothers (hpc ▸ rfl)), nofun⟩
  | load => exact Spares.quiet _ rfl rfl
  | store hpc =>
    have hat := (hL.at hpc rfl).2
    simp only [InWriter, hpc] at hat
    exact ⟨Iff.rfl, fun hu ↦ absurd hu (hothers (hpc ▸ rfl)), fun _ heven ↦ by omega⟩
  | print hpc => exact ⟨Iff.rfl, fun hu ↦ absurd hu (hothers (hpc ▸ rfl)), fun _ _ ↦ rfl⟩
  | print_seq => exact Spares.quiet _ rfl rfl
  | leave hpc => exact ⟨Iff.rfl, fun hu ↦ absurd hu (hothers (hpc ▸ rfl)), nofun⟩
  | unlock hpc =>
    have hne' := hothers (hpc ▸ rfl)
    exact ⟨iff_of_false nofun hne', fun hu ↦ absurd hu hne', fun _ _ ↦ rfl⟩

theorem Writing.frame (h : Writing role es u s m) {e : Event τ} (hs : Spares role u es s e s') :
    Writing role (es ++ [e]) u s' m where
  holds := hs.lock.trans h.holds
  counter hin := by
    obtain ⟨hres, hadds, hbump⟩ := hs.counter (h.holds.mpr hin)
    rw [hres, hadds, bumps_same hbump]
    exact h.counter hin

end Interference

section Interference

variable {τ : Type*} [DecidableEq τ] {es : List (Event τ)} {t u : τ} {role : τ → Role} {s s' : Shared τ}
  {m : Local} {a : Action}

theorem Reading.frame (h : Reading es u s m) (hne : u ≠ t) (hs : Spares role u es s (t, a) s') :
    Reading (es ++ [(t, a)]) u s' m := by
  have hbegin := isBegin_other hne a
  have hagain := isAgain_other hne a
  have hagains := h.agains
  cases hbump : isBump (t, a) with
  | true =>
    refine ⟨fun hpc ↦ ?_, ?_⟩
    · have hat := h.attempt hpc
      have hle := hat.le
      constructor
      · rw [agains_same hagain, bumpsSince_snoc hbegin, bumps_snoc, if_pos hbump]
        omega
      · rw [bumpsSince_snoc hbegin, bumps_snoc, if_pos hbump, Nat.add_sub_add_right]
        exact hat.even
      · rw [bumpsSince_snoc hbegin, bumps_snoc, if_pos hbump, Nat.add_sub_add_right]
        exact hat.seq_num
      · rw [bumpsSince_snoc hbegin, if_pos hbump]
        exact fun _ ↦ nofun
    · rw [agains_same hagain, bumps_snoc]
      omega
  | false =>
    refine ⟨fun hpc ↦ ?_, ?_⟩
    · have hat := h.attempt hpc
      have hle := hat.le
      have heven := hat.even
      constructor
      · rwa [agains_same hagain, bumpsSince_same hbegin hbump, bumps_same hbump]
      · rwa [bumpsSince_same hbegin hbump, bumps_same hbump]
      · rw [bumpsSince_same hbegin hbump, bumps_same hbump]
        exact hat.seq_num
      · rw [bumpsSince_same hbegin hbump]
        intro hload hnone
        rw [hs.res hbump (by omega)]
        exact hat.val hload hnone
    · rwa [agains_same hagain, bumps_same hbump]

end Interference

section Runs

variable {τ : Type*} [DecidableEq τ] {role : τ → Role} {started : τ → Bool} {es : List (Event τ)}
  {t : τ} {s : Shared τ} {l : Local} {w : Threads τ (Shared τ) Local}

theorem known_reader (ht : role t = .reader) : Known role es t s l ↔ Reading es t s l := by
  rw [Known, ht]

theorem known_writer (ht : role t = .writer) : Known role es t s l ↔ Writing role es t s l := by
  rw [Known, ht]

theorem init_asserted (started : τ → Bool) :
    Threads.Asserted (Guarded role) (Known role) [] (init_kthread started) := by
  refine ⟨⟨rfl, fun _ ↦ rfl, fun _ ↦ ⟨rfl, rfl⟩, always_nil⟩, fun t ↦ ?_⟩
  have hpc : ((init_kthread started).loc t).pc.inside = false ∧
      ((init_kthread started).loc t).pc.reading = false := by
    simp only [init_kthread]
    cases started t
    · exact ⟨rfl, rfl⟩
    · exact ⟨rfl, rfl⟩
  cases hrole : role t with
  | reader =>
    refine (known_reader hrole).mpr ⟨fun hin ↦ ?_, Nat.le_refl 0⟩
    rw [hpc.2] at hin
    cases hin
  | writer =>
    refine (known_writer hrole).mpr ⟨iff_of_false nofun ?_, fun hin ↦ ?_⟩
    · rw [hpc.1]
      exact nofun
    · rw [hpc.1] at hin
      cases hin

theorem run_asserted (h : Run (Threads.Step (thread role)) (init_kthread started) es w) :
    Threads.Asserted (Guarded role) (Known role) es w := by
  refine Threads.asserted _ _ (init_asserted started) ?_ ?_ h
  · intro es t s l a s' l' hG hL hst
    cases hrole : role t with
    | reader =>
      rw [thread, hrole] at hst
      have hL := (known_reader hrole).mp hL
      exact (reader_step hG hrole hL hst).imp_right (known_reader hrole).mpr
    | writer =>
      rw [thread, hrole] at hst
      have hL := (known_writer hrole).mp hL
      exact (writer_step hG hrole hL hst).imp_right (known_writer hrole).mpr
  · intro es t s l a s' l' u m hne _ hL hM hst
    have hspares : Spares role u es s (t, a) s' := by
      cases hrole : role t with
      | reader =>
        rw [thread, hrole] at hst
        exact reader_spares hrole hst
      | writer =>
        rw [thread, hrole] at hst
        exact writer_spares hne ((known_writer hrole).mp hL) hst
    cases hrole : role u with
    | reader => exact (known_reader hrole).mpr (((known_reader hrole).mp hM).frame hne hspares)
    | writer => exact (known_writer hrole).mpr (((known_writer hrole).mp hM).frame hspares)

/-- At most one writer is at work. -/
theorem run_exclusive (h : Run (Threads.Step (thread role)) (init_kthread started) es w) {t u : τ}
    (hne : u ≠ t) (ht : role t = .writer) (hu : role u = .writer) (hin : (w.loc t).pc.inside = true) :
    (w.loc u).pc.inside = false := by
  obtain ⟨_, hL⟩ := run_asserted h
  have hheld := ((known_writer ht).mp (hL t)).holds.mpr hin
  by_contra hin'
  rw [((known_writer hu).mp (hL u)).holds.mpr (Bool.not_eq_false _ ▸ hin')] at hheld
  exact hne (Option.some.inj hheld)

/-- The sequence does not come all the way round while a reader reads. -/
def NoWrap (es : List (Event τ)) : Prop :=
  Always (fun pre e ↦ ∀ v, e.2 = .accept v → bumpsSince e.1 pre < 2 ^ 32) es

theorem noWrap_of_few (h : bumps es < 2 ^ 32) : NoWrap es := by
  rintro pre e post rfl v _
  have hsince : bumpsSince e.1 pre ≤ bumps pre := (List.rtakeWhile_suffix _ _).sublist.countP_le
  have hpre : bumps pre ≤ bumps (pre ++ e :: post) := (List.sublist_append_left _ _).countP_le
  omega

theorem run_counts (h : Run (Threads.Step (thread role)) (init_kthread started) es w)
    (hwrap : NoWrap es) : Run CounterStep 0#32 (es.filterMap (op role)) (total role es) := by
  refine Run.of_labels (total role) ?_ fun pre e post he d hd ↦ ?_
  · intro es e hnone
    rw [total, adds_same, total]
    obtain ⟨t, a⟩ := e
    cases a with
    | print v =>
      by_contra hadd
      rw [op, if_pos (by simpa [isAdd] using hadd)] at hnone
      cases hnone
    | _ => rfl
  · exact ((run_asserted h).1.log pre e post he).counts d hd (hwrap pre e post he)

end Runs

/-- Any number of threads increment and read the counter, in any order.  Unless the sequence comes all the
way round while a reader reads, the numbers that the writers print and those that the readers are left
with are what an atomic counter would say; the writers take turns, and the sequence they print is twice the
number less one.  A reader leaves its loop exactly when the sequence has come round to its number, and has
started over at most as often as the sequence has been incremented. -/
theorem seqlock_counts {τ : Type*} [DecidableEq τ] {role : τ → Role} {started : τ → Bool}
    {es : List (Event τ)} {w : Threads τ (Shared τ) Local}
    (h : Run (Threads.Step (thread role)) (init_kthread started) es w) :
    (NoWrap es → Run CounterStep 0#32 (es.filterMap (op role)) (total role es)) ∧
      (∀ t u, u ≠ t → role t = .writer → role u = .writer → (w.loc t).pc.inside = true →
        (w.loc u).pc.inside = false) ∧
      Always (fun pre e ↦
        (∀ q, e.2 = .print_seq q → role e.1 = .writer → q = BitVec.ofNat 32 (2 * adds role pre - 1)) ∧
        (e.2 = .again → ¬2 ^ 32 ∣ bumpsSince e.1 pre) ∧
        ∀ v, e.2 = .accept v → 2 ^ 32 ∣ bumpsSince e.1 pre) es ∧
      ∀ t, role t = .reader → agains t es ≤ bumps es := by
  refine ⟨run_counts h, fun t u hne ht hu hin ↦ run_exclusive h hne ht hu hin, fun pre e post he ↦ ?_,
    fun t ht ↦ ?_⟩
  · have hlog := (run_asserted h).1.log pre e post he
    exact ⟨hlog.shows, hlog.again, hlog.accept⟩
  · exact ((known_reader ht).mp ((run_asserted h).2 t)).agains

-- The first two threads, the third one not being started.
def readerWriter (s : Shared Lab32.Thread) (a b : Local) : Threads Lab32.Thread (Shared Lab32.Thread) Local where
  shared := s
  loc
    | .a => a
    | .b => b
    | .c => ⟨.finished, 0, 0⟩

section Pair

variable {s s' : Shared Lab32.Thread} {a a' b b' : Local} {x : Action}

theorem reader_moves (h : MyPrintk_a .a s a x s' a') :
    Threads.Step (thread Lab32.Thread.role) (readerWriter s a b) (.a, x) (readerWriter s' a' b) := by
  have hw : readerWriter s' a' b = ⟨s', Function.update (readerWriter s a b).loc .a a'⟩ := by
    unfold readerWriter
    congr 1
    funext t
    cases t <;> rfl
  rw [hw]
  exact .mk h

theorem writer_moves (h : MyPrintk_b .b s b x s' b') :
    Threads.Step (thread Lab32.Thread.role) (readerWriter s a b) (.b, x) (readerWriter s' a b') := by
  have hw : readerWriter s' a b' = ⟨s', Function.update (readerWriter s a b).loc .b b'⟩ := by
    unfold readerWriter
    congr 1
    funext t
    cases t <;> rfl
  rw [hw]
  exact .mk h

end Pair

-- A reader that starts before a writer increments goes round its loop twice.
theorem seqlock_counts_second_round :
    ∃ es w, Run (Threads.Step (thread Lab32.Thread.role)) (init_kthread fun t ↦ decide (t ≠ .c)) es w ∧
      es.filterMap (op Lab32.Thread.role) = [.add 1#32, .get 1#32] ∧ agains .a es = 1 ∧
      Run CounterStep 0#32 (es.filterMap (op Lab32.Thread.role)) (total Lab32.Thread.role es) := by
  have hstart : (init_kthread fun t ↦ decide (t ≠ .c)) =
      readerWriter ⟨⟨0, none⟩, 0⟩ ⟨.sleep, 0, 0⟩ ⟨.sleep, 0, 0⟩ := by
    unfold init_kthread readerWriter
    congr 1
    funext t
    cases t <;> rfl
  rw [hstart]
  have hfirst : Run (Threads.Step (thread Lab32.Thread.role))
      (readerWriter ⟨⟨0, none⟩, 0⟩ ⟨.sleep, 0, 0⟩ ⟨.sleep, 0, 0⟩)
      [(.a, .quiet), (.a, .begin), (.b, .quiet), (.b, .quiet), (.b, .bump), (.a, .quiet), (.a, .print 0),
        (.a, .print_seq 1), (.a, .again)]
      (readerWriter ⟨⟨1, some .b⟩, 0⟩ ⟨.begin, 0, 0⟩ ⟨.load, 0, 0⟩) :=
    .cons (reader_moves (.sleep rfl)) (.cons (reader_moves (.begin rfl rfl)) (.cons (writer_moves (.sleep rfl))
      (.cons (writer_moves (.lock rfl rfl)) (.cons (writer_moves (.enter rfl)) (.cons (reader_moves (.load rfl))
      (.cons (reader_moves (.print rfl)) (.cons (reader_moves (.print_seq rfl))
      (.cons (reader_moves (.again rfl (by decide))) .nil))))))))
  have hsecond : Run (Threads.Step (thread Lab32.Thread.role))
      (readerWriter ⟨⟨1, some .b⟩, 0⟩ ⟨.begin, 0, 0⟩ ⟨.load, 0, 0⟩)
      [(.b, .quiet), (.b, .quiet), (.b, .print 1), (.b, .print_seq 1), (.b, .bump), (.a, .begin), (.a, .quiet),
        (.a, .print 1), (.a, .print_seq 2), (.a, .accept 1)]
      (readerWriter ⟨⟨2, some .b⟩, 1⟩ ⟨.sleep, 1, 2⟩ ⟨.unlock, 0, 0⟩) :=
    .cons (writer_moves (.load rfl)) (.cons (writer_moves (.store rfl)) (.cons (writer_moves (.print rfl))
      (.cons (writer_moves (.print_seq rfl)) (.cons (writer_moves (.leave rfl))
      (.cons (reader_moves (.begin rfl rfl)) (.cons (reader_moves (.load rfl)) (.cons (reader_moves (.print rfl))
      (.cons (reader_moves (.print_seq rfl)) (.cons (reader_moves (.accept rfl rfl)) .nil)))))))))
  have hrun := hfirst.append hsecond
  refine ⟨_, _, hrun, rfl, rfl, ?_⟩
  rw [← hstart] at hrun
  exact (seqlock_counts hrun).1 (noWrap_of_few (by decide))

end OK210Drivers.Counter.Lab35
