import OK210Drivers.Library.Counter
import OK210Drivers.Library.Threads

/-!
# A counter under a read-write lock

The threads of lab32 and of its debug variant: each of them either increments `shared_res` under the write
lock or reads it under the read lock, and prints what it has there.
-/

open Library

namespace OK210Drivers.Counter

/-- What a thread does with the counter. -/
inductive Role
  | reader
  | writer
  deriving DecidableEq

namespace Lab32

/-- `rwlock_t`: who holds it for writing, and who for reading. -/
structure RwLock (τ : Type*) where
  writer : Option τ
  readers : τ → Bool

structure Shared (τ : Type*) where
  my_rw_spin_lock : RwLock τ
  shared_res : BitVec 32

-- The statement that a thread is at.
inductive Pc
  | sleep
  | lock
  | load
  | store
  | print
  | unlock
  | finished
  deriving DecidableEq

/-- Between taking the lock and releasing it. -/
def Pc.inside : Pc → Bool
  | .sleep | .lock | .finished => false
  | .load | .store | .print | .unlock => true

/-- `val` of a reader, and the register in which a writer increments. -/
structure Local where
  pc : Pc
  val : BitVec 32

section Threads

variable {τ : Type*} [DecidableEq τ]

def RW_LOCK_UNLOCKED : RwLock τ := ⟨none, fun _ ↦ false⟩

/-- `MyPrintk_b` and `MyPrintk_c`, labelled with the number they print. -/
inductive MyPrintk_b (t : τ) : Shared τ → Local → Option (BitVec 32) → Shared τ → Local → Prop
  | stop {s l} : l.pc = .sleep → MyPrintk_b t s l none s { l with pc := .finished }
  | sleep {s l} : l.pc = .sleep → MyPrintk_b t s l none s { l with pc := .lock }
  | write_lock {s l} : l.pc = .lock → s.my_rw_spin_lock.writer = none →
      (∀ u, s.my_rw_spin_lock.readers u = false) →
      MyPrintk_b t s l none
        { s with my_rw_spin_lock := { s.my_rw_spin_lock with writer := some t } } { l with pc := .load }
  -- `shared_res++`
  | load {s l} : l.pc = .load → MyPrintk_b t s l none s { pc := .store, val := s.shared_res }
  | store {s l} : l.pc = .store →
      MyPrintk_b t s l none { s with shared_res := l.val + 1#32 } { l with pc := .print }
  | print {s l} : l.pc = .print → MyPrintk_b t s l (some s.shared_res) s { l with pc := .unlock }
  | write_unlock {s l} : l.pc = .unlock →
      MyPrintk_b t s l none
        { s with my_rw_spin_lock := { s.my_rw_spin_lock with writer := none } } { l with pc := .sleep }

/-- `MyPrintk_a`. -/
inductive MyPrintk_a (t : τ) : Shared τ → Local → Option (BitVec 32) → Shared τ → Local → Prop
  | stop {s l} : l.pc = .sleep → MyPrintk_a t s l none s { l with pc := .finished }
  | sleep {s l} : l.pc = .sleep → MyPrintk_a t s l none s { l with pc := .lock }
  | read_lock {s l} : l.pc = .lock → s.my_rw_spin_lock.writer = none →
      MyPrintk_a t s l none
        { s with my_rw_spin_lock :=
          { s.my_rw_spin_lock with readers := Function.update s.my_rw_spin_lock.readers t true } }
        { l with pc := .load }
  | load {s l} : l.pc = .load → MyPrintk_a t s l none s { pc := .print, val := s.shared_res }
  | print {s l} : l.pc = .print → MyPrintk_a t s l (some l.val) s { l with pc := .unlock }
  | read_unlock {s l} : l.pc = .unlock →
      MyPrintk_a t s l none
        { s with my_rw_spin_lock :=
          { s.my_rw_spin_lock with readers := Function.update s.my_rw_spin_lock.readers t false } }
        { l with pc := .sleep }

variable (role : τ → Role)

def thread (t : τ) : Shared τ → Local → Option (BitVec 32) → Shared τ → Local → Prop :=
  match role t with
  | .reader => MyPrintk_a t
  | .writer => MyPrintk_b t

/-- `init_kthread` when the threads of `started` could be started. -/
def init_kthread (started : τ → Bool) : Threads τ (Shared τ) Local where
  shared := ⟨RW_LOCK_UNLOCKED, 0⟩
  loc t := ⟨if started t then .sleep else .finished, 0⟩

abbrev Event (τ : Type*) := τ × Option (BitVec 32)

/-- What a line of the log says of the counter. -/
def op : Event τ → Option (CounterOp 32)
  | (_, none) => none
  | (t, some v) => some (match role t with
    | .reader => .get v
    | .writer => .add v)

def isAdd (e : Event τ) : Bool := e.2.isSome && role e.1 = .writer

/-- How many lines the writers have printed. -/
def adds (es : List (Event τ)) : Nat := es.countP (isAdd role)

/-- The counter according to the lines of the writers. -/
def total (es : List (Event τ)) : BitVec 32 := BitVec.ofNat 32 (adds role es)

/-- What the counter is when a writer holds the lock, `n` lines having been printed. -/
def InWriter (n : Nat) (shared_res : BitVec 32) (l : Local) : Prop :=
  match l.pc with
  | .store => shared_res = BitVec.ofNat 32 n ∧ l.val = BitVec.ofNat 32 n
  | .print => shared_res = BitVec.ofNat 32 (n + 1)
  | _ => shared_res = BitVec.ofNat 32 n

structure Writing (n : Nat) (t : τ) (s : Shared τ) (l : Local) : Prop where
  holds : s.my_rw_spin_lock.writer = some t ↔ l.pc.inside = true
  reads : s.my_rw_spin_lock.readers t = false
  counter : l.pc.inside = true → InWriter n s.shared_res l

structure Reading (n : Nat) (t : τ) (s : Shared τ) (l : Local) : Prop where
  holds : s.my_rw_spin_lock.readers t = l.pc.inside
  writes : s.my_rw_spin_lock.writer ≠ some t
  store : l.pc ≠ .store
  val : l.pc = .print → l.val = BitVec.ofNat 32 n

/-- What is known of a thread. -/
def Known (es : List (Event τ)) (t : τ) (s : Shared τ) (l : Local) : Prop :=
  match role t with
  | .reader => Reading (adds role es) t s l
  | .writer => Writing (adds role es) t s l

/-- The counter is what has been printed while no writer is at work, and no reader is while one is; and
every line so far is what an atomic counter says. -/
structure Guarded (es : List (Event τ)) (s : Shared τ) : Prop where
  free : s.my_rw_spin_lock.writer = none → s.shared_res = total role es
  alone : s.my_rw_spin_lock.writer ≠ none → ∀ u, s.my_rw_spin_lock.readers u = false
  log : Always (fun pre e ↦ ∀ d, op role e = some d →
    CounterStep (total role pre) d (total role (pre ++ [e]))) es

end Threads

section Lines

variable {τ : Type*} {role : τ → Role} {es : List (Event τ)} {t : τ} {s s' : Shared τ} {l l' : Local}

@[simp] theorem adds_quiet : adds role (es ++ [(t, none)]) = adds role es := by
  rw [adds, List.countP_append, List.countP_singleton]
  rfl

theorem adds_writer {v : BitVec 32} (h : role t = .writer) :
    adds role (es ++ [(t, some v)]) = adds role es + 1 := by
  rw [adds, List.countP_append, List.countP_singleton, if_pos (by simp [isAdd, h])]
  rfl

theorem adds_reader {v : BitVec 32} (h : role t = .reader) :
    adds role (es ++ [(t, some v)]) = adds role es := by
  rw [adds, List.countP_append, List.countP_singleton, if_neg (by simp [isAdd, h])]
  rfl

/-- A step that prints nothing. -/
theorem Guarded.quiet (h : Guarded role es s)
    (hfree : s'.my_rw_spin_lock.writer = none → s'.shared_res = total role es)
    (halone : s'.my_rw_spin_lock.writer ≠ none → ∀ u, s'.my_rw_spin_lock.readers u = false) :
    Guarded role (es ++ [(t, none)]) s' where
  free hnone := by
    rw [total, adds_quiet]
    exact hfree hnone
  alone := halone
  log := always_snoc.mpr ⟨h.log, fun _ hd ↦ by cases hd⟩

/-- The line of a writer, which is the next number. -/
theorem Guarded.writer_line (h : Guarded role es s) (ht : role t = .writer)
    (hheld : s.my_rw_spin_lock.writer = some t) (hval : s.shared_res = BitVec.ofNat 32 (adds role es + 1)) :
    Guarded role (es ++ [(t, some s.shared_res)]) s where
  free hnone := by
    rw [hheld] at hnone
    cases hnone
  alone := h.alone
  log := by
    refine always_snoc.mpr ⟨h.log, fun d hd ↦ ?_⟩
    simp only [op, ht] at hd
    cases hd
    rw [total, total, adds_writer ht, hval]
    exact CounterStep.add_ofNat _

/-- The line of a reader, which is the last number. -/
theorem Guarded.reader_line (h : Guarded role es s) (ht : role t = .reader)
    (hval : l.val = total role es) : Guarded role (es ++ [(t, some l.val)]) s where
  free hnone := by
    rw [total, adds_reader ht]
    exact h.free hnone
  alone := h.alone
  log := by
    refine always_snoc.mpr ⟨h.log, fun d hd ↦ ?_⟩
    simp only [op, ht] at hd
    cases hd
    rw [hval, total, total, adds_reader ht]
    exact .get _

end Lines

section Writers

variable {τ : Type*} {role : τ → Role} {es : List (Event τ)} {t u : τ} {s s' : Shared τ}
  {l l' m : Local} {e : Option (BitVec 32)} {n n' : Nat}

/-- While a reader holds the lock no writer does. -/
theorem Guarded.no_writer (h : Guarded role es s) (hu : s.my_rw_spin_lock.readers u = true) :
    s.my_rw_spin_lock.writer = none := by
  by_contra hne
  rw [h.alone hne u] at hu
  cases hu

theorem Writing.at (h : Writing n t s l) {pc : Pc} (hpc : l.pc = pc) (hin : pc.inside = true) :
    s.my_rw_spin_lock.writer = some t ∧ InWriter n s.shared_res l :=
  ⟨h.holds.mpr (hpc ▸ hin), h.counter (hpc ▸ hin)⟩

theorem Writing.outside (h : Writing n t s l) {pc : Pc} (hpc : l.pc = pc) (hout : pc.inside = false) :
    s.my_rw_spin_lock.writer ≠ some t := by
  intro hheld
  rw [h.holds, hpc, hout] at hheld
  cases hheld

theorem writer_step (hG : Guarded role es s) (ht : role t = .writer)
    (hL : Writing (adds role es) t s l) (hst : MyPrintk_b t s l e s' l') :
    Guarded role (es ++ [(t, e)]) s' ∧ Writing (adds role (es ++ [(t, e)])) t s' l' := by
  cases hst with
  | stop hpc => exact ⟨hG.quiet hG.free hG.alone, iff_of_false (hL.outside hpc rfl) nofun, hL.reads, nofun⟩
  | sleep hpc => exact ⟨hG.quiet hG.free hG.alone, iff_of_false (hL.outside hpc rfl) nofun, hL.reads, nofun⟩
  | write_lock hpc hnone hread =>
    rw [adds_quiet]
    exact ⟨hG.quiet nofun fun _ ↦ hread, iff_of_true rfl rfl, hL.reads, fun _ ↦ hG.free hnone⟩
  | load hpc =>
    obtain ⟨hheld, hres⟩ := hL.at hpc rfl
    simp only [InWriter, hpc] at hres
    rw [adds_quiet]
    exact ⟨hG.quiet hG.free hG.alone, iff_of_true hheld rfl, hL.reads, fun _ ↦ ⟨hres, hres⟩⟩
  | store hpc =>
    obtain ⟨hheld, hres⟩ := hL.at hpc rfl
    simp only [InWriter, hpc] at hres
    rw [adds_quiet]
    refine ⟨hG.quiet (fun hnone ↦ ?_) hG.alone, iff_of_true hheld rfl, hL.reads, fun _ ↦ ?_⟩
    · rw [hheld] at hnone
      cases hnone
    · show l.val + 1#32 = _
      rw [hres.2, BitVec.ofNat_add]
  | print hpc =>
    obtain ⟨hheld, hres⟩ := hL.at hpc rfl
    simp only [InWriter, hpc] at hres
    rw [adds_writer ht]
    exact ⟨hG.writer_line ht hheld hres, iff_of_true hheld rfl, hL.reads, fun _ ↦ hres⟩
  | write_unlock hpc =>
    obtain ⟨_, hres⟩ := hL.at hpc rfl
    simp only [InWriter, hpc] at hres
    exact ⟨hG.quiet (fun _ ↦ hres) (absurd rfl), iff_of_false nofun nofun, hL.reads, nofun⟩

/-- What a step leaves to another thread: its hold of the lock, and the counter if it has one. -/
structure Spares (u : τ) (s : Shared τ) (n : Nat) (s' : Shared τ) (n' : Nat) : Prop where
  writer : s'.my_rw_spin_lock.writer = some u ↔ s.my_rw_spin_lock.writer = some u
  readers : s'.my_rw_spin_lock.readers u = s.my_rw_spin_lock.readers u
  counter : s.my_rw_spin_lock.writer = some u ∨ s.my_rw_spin_lock.readers u = true →
    s'.shared_res = s.shared_res ∧ n' = n

theorem Spares.quiet : Spares u s (adds role es) s (adds role (es ++ [(t, none)])) :=
  ⟨Iff.rfl, rfl, fun _ ↦ ⟨rfl, adds_quiet⟩⟩

theorem Writing.frame (h : Writing n u s m) (hs : Spares u s n s' n') : Writing n' u s' m where
  holds := hs.writer.trans h.holds
  reads := hs.readers.trans h.reads
  counter hin := by
    obtain ⟨hres, rfl⟩ := hs.counter (Or.inl (h.holds.mpr hin))
    rw [hres]
    exact h.counter hin

theorem Reading.frame (h : Reading n u s m) (hs : Spares u s n s' n') : Reading n' u s' m where
  holds := hs.readers.trans h.holds
  writes := fun hw ↦ h.writes (hs.writer.mp hw)
  store := h.store
  val hpc := by
    have hheld : s.my_rw_spin_lock.readers u = true := h.holds.trans (hpc ▸ rfl)
    rw [(hs.counter (Or.inr hheld)).2]
    exact h.val hpc

/-- A writer that holds the lock is the only one to hold it. -/
theorem Guarded.others (hG : Guarded role es s) (hne : u ≠ t)
    (hheld : s.my_rw_spin_lock.writer = some t) :
    s.my_rw_spin_lock.writer ≠ some u ∧ s.my_rw_spin_lock.readers u = false := by
  have hsome : s.my_rw_spin_lock.writer ≠ none := by
    rw [hheld]
    exact nofun
  refine ⟨fun hu ↦ ?_, hG.alone hsome u⟩
  rw [hheld] at hu
  exact hne (Option.some.inj hu).symm

theorem writer_spares (hG : Guarded role es s) (hne : u ≠ t) (hL : Writing (adds role es) t s l)
    (hst : MyPrintk_b t s l e s' l') : Spares u s (adds role es) s' (adds role (es ++ [(t, e)])) := by
  -- what another thread has of the lock, once this one holds it
  have hothers : l.pc.inside = true → ¬(s.my_rw_spin_lock.writer = some u ∨
      s.my_rw_spin_lock.readers u = true) := by
    intro hin
    obtain ⟨hw, hr⟩ := hG.others hne (hL.holds.mpr hin)
    rintro (hu | hu)
    · exact hw hu
    · rw [hr] at hu
      cases hu
  cases hst with
  | stop => exact Spares.quiet
  | sleep => exact Spares.quiet
  | write_lock hpc hnone hread =>
    refine ⟨iff_of_false (fun hu ↦ hne (Option.some.inj hu).symm) ?_, rfl, fun _ ↦ ⟨rfl, adds_quiet⟩⟩
    rw [hnone]
    exact nofun
  | load => exact Spares.quiet
  | store hpc => exact ⟨Iff.rfl, rfl, fun hu ↦ absurd hu (hothers (hpc ▸ rfl))⟩
  | print hpc => exact ⟨Iff.rfl, rfl, fun hu ↦ absurd hu (hothers (hpc ▸ rfl))⟩
  | write_unlock hpc =>
    have hin : l.pc.inside = true := hpc ▸ rfl
    exact ⟨iff_of_false nofun fun hu ↦ hothers hin (Or.inl hu), rfl,
      fun hu ↦ absurd hu (hothers hin)⟩

end Writers

section Readers

variable {τ : Type*} [DecidableEq τ] {role : τ → Role} {es : List (Event τ)} {t u : τ} {s s' : Shared τ}
  {l l' m : Local} {e : Option (BitVec 32)}

theorem reader_step (hG : Guarded role es s) (ht : role t = .reader)
    (hL : Reading (adds role es) t s l) (hst : MyPrintk_a t s l e s' l') :
    Guarded role (es ++ [(t, e)]) s' ∧ Reading (adds role (es ++ [(t, e)])) t s' l' := by
  cases hst with
  | stop hpc => exact ⟨hG.quiet hG.free hG.alone, hL.holds.trans (hpc ▸ rfl), hL.writes, nofun, nofun⟩
  | sleep hpc => exact ⟨hG.quiet hG.free hG.alone, hL.holds.trans (hpc ▸ rfl), hL.writes, nofun, nofun⟩
  | read_lock hpc hnone =>
    exact ⟨hG.quiet hG.free fun hne ↦ absurd hnone hne, Function.update_self .., hL.writes, nofun, nofun⟩
  | load hpc =>
    have hheld : s.my_rw_spin_lock.readers t = true := hL.holds.trans (hpc ▸ rfl)
    rw [adds_quiet]
    exact ⟨hG.quiet hG.free hG.alone, hheld, hL.writes, nofun, fun _ ↦ hG.free (hG.no_writer hheld)⟩
  | print hpc =>
    have hheld : s.my_rw_spin_lock.readers t = true := hL.holds.trans (hpc ▸ rfl)
    exact ⟨hG.reader_line ht (hL.val hpc), hheld, hL.writes, nofun, nofun⟩
  | read_unlock hpc =>
    have hheld : s.my_rw_spin_lock.readers t = true := hL.holds.trans (hpc ▸ rfl)
    exact ⟨hG.quiet hG.free fun hne ↦ absurd (hG.no_writer hheld) hne, Function.update_self ..,
      hL.writes, nofun, nofun⟩

theorem reader_spares (ht : role t = .reader) (hne : u ≠ t) (hst : MyPrintk_a t s l e s' l') :
    Spares u s (adds role es) s' (adds role (es ++ [(t, e)])) := by
  cases hst with
  | stop => exact Spares.quiet
  | sleep => exact Spares.quiet
  | read_lock => exact ⟨Iff.rfl, Function.update_of_ne hne .., fun _ ↦ ⟨rfl, adds_quiet⟩⟩
  | load => exact Spares.quiet
  | print => exact ⟨Iff.rfl, rfl, fun _ ↦ ⟨rfl, adds_reader ht⟩⟩
  | read_unlock => exact ⟨Iff.rfl, Function.update_of_ne hne .., fun _ ↦ ⟨rfl, adds_quiet⟩⟩

end Readers

section Runs

variable {τ : Type*} {role : τ → Role} {es : List (Event τ)} {t : τ} {s : Shared τ} {l : Local}

theorem known_reader (ht : role t = .reader) : Known role es t s l ↔ Reading (adds role es) t s l := by
  rw [Known, ht]

theorem known_writer (ht : role t = .writer) : Known role es t s l ↔ Writing (adds role es) t s l := by
  rw [Known, ht]

theorem init_asserted (started : τ → Bool) :
    Threads.Asserted (Guarded role) (Known role) [] (init_kthread started) := by
  have hpc : ∀ t, ((init_kthread started).loc t).pc.inside = false ∧
      ((init_kthread started).loc t).pc ≠ .store ∧ ((init_kthread started).loc t).pc ≠ .print := by
    intro t
    simp only [init_kthread]
    cases started t <;> exact ⟨rfl, nofun, nofun⟩
  refine ⟨⟨fun _ ↦ rfl, absurd rfl, always_nil⟩, fun t ↦ ?_⟩
  obtain ⟨hout, hstore, hprint⟩ := hpc t
  cases hrole : role t with
  | reader => exact (known_reader hrole).mpr ⟨hout.symm, nofun, hstore, fun h ↦ absurd h hprint⟩
  | writer =>
    refine (known_writer hrole).mpr ⟨iff_of_false nofun ?_, rfl, fun hin ↦ ?_⟩
    · rw [hout]
      exact nofun
    · rw [hout] at hin
      cases hin

end Runs

section Runs

variable {τ : Type*} [DecidableEq τ] {role : τ → Role} {started : τ → Bool} {es : List (Event τ)}
  {w : Threads τ (Shared τ) Local}

theorem run_asserted (h : Run (Threads.Step (thread role)) (init_kthread started) es w) :
    Threads.Asserted (Guarded role) (Known role) es w := by
  refine Threads.asserted _ _ (init_asserted started) ?_ ?_ h
  · intro es t s l e s' l' hG hL hst
    cases hrole : role t with
    | reader =>
      rw [thread, hrole] at hst
      have hL := (known_reader hrole).mp hL
      exact (reader_step hG hrole hL hst).imp_right (known_reader hrole).mpr
    | writer =>
      rw [thread, hrole] at hst
      have hL := (known_writer hrole).mp hL
      exact (writer_step hG hrole hL hst).imp_right (known_writer hrole).mpr
  · intro es t s l e s' l' u m hne hG hL hM hst
    have hspares : Spares u s (adds role es) s' (adds role (es ++ [(t, e)])) := by
      cases hrole : role t with
      | reader =>
        rw [thread, hrole] at hst
        exact reader_spares hrole hne hst
      | writer =>
        rw [thread, hrole] at hst
        exact writer_spares hG hne ((known_writer hrole).mp hL) hst
    cases hrole : role u with
    | reader => exact (known_reader hrole).mpr (((known_reader hrole).mp hM).frame hspares)
    | writer => exact (known_writer hrole).mpr (((known_writer hrole).mp hM).frame hspares)

/-- A writer keeps everyone else out. -/
theorem run_exclusive (h : Run (Threads.Step (thread role)) (init_kthread started) es w) {t u : τ}
    (hne : u ≠ t) (ht : role t = .writer) (hin : (w.loc t).pc.inside = true) :
    (w.loc u).pc.inside = false := by
  obtain ⟨hG, hL⟩ := run_asserted h
  have hheld := ((known_writer ht).mp (hL t)).holds.mpr hin
  obtain ⟨hw, hr⟩ := hG.others hne hheld
  cases hu : role u with
  | reader => exact ((known_reader hu).mp (hL u)).holds.symm.trans hr
  | writer =>
    have hholds := ((known_writer hu).mp (hL u)).holds
    by_contra hin'
    exact hw (hholds.mpr (Bool.not_eq_false _ ▸ hin'))

/-- The lock is free when no thread is inside. -/
theorem run_lock_free (h : Run (Threads.Step (thread role)) (init_kthread started) es w)
    (hout : ∀ t, (w.loc t).pc.inside = false) : w.shared.my_rw_spin_lock.writer = none ∧
      ∀ t, w.shared.my_rw_spin_lock.readers t = false := by
  obtain ⟨_, hL⟩ := run_asserted h
  constructor
  · by_contra hne
    obtain ⟨t, ht⟩ := Option.ne_none_iff_exists'.mp hne
    cases hrole : role t with
    | reader => exact ((known_reader hrole).mp (hL t)).writes ht
    | writer =>
      have hin := ((known_writer hrole).mp (hL t)).holds.mp ht
      rw [hout t] at hin
      cases hin
  · intro t
    cases hrole : role t with
    | reader => exact ((known_reader hrole).mp (hL t)).holds.trans (hout t)
    | writer => exact ((known_writer hrole).mp (hL t)).reads

/-- A thread can always take a step, unless it waits for the lock. -/
theorem run_steps (h : Run (Threads.Step (thread role)) (init_kthread started) es w) {t : τ}
    (hlock : (w.loc t).pc = .lock → w.shared.my_rw_spin_lock.writer = none ∧
      ∀ u, w.shared.my_rw_spin_lock.readers u = false)
    (hfinished : (w.loc t).pc ≠ .finished) : ∃ e s l, thread role t w.shared (w.loc t) e s l := by
  obtain ⟨_, hL⟩ := run_asserted h
  cases hrole : role t with
  | reader =>
    rw [thread, hrole]
    cases hpc : (w.loc t).pc with
    | sleep => exact ⟨_, _, _, MyPrintk_a.sleep hpc⟩
    | lock => exact ⟨_, _, _, MyPrintk_a.read_lock hpc (hlock hpc).1⟩
    | load => exact ⟨_, _, _, MyPrintk_a.load hpc⟩
    | store => exact absurd hpc ((known_reader hrole).mp (hL t)).store
    | print => exact ⟨_, _, _, MyPrintk_a.print hpc⟩
    | unlock => exact ⟨_, _, _, MyPrintk_a.read_unlock hpc⟩
    | finished => exact absurd hpc hfinished
  | writer =>
    rw [thread, hrole]
    cases hpc : (w.loc t).pc with
    | sleep => exact ⟨_, _, _, MyPrintk_b.sleep hpc⟩
    | lock => exact ⟨_, _, _, MyPrintk_b.write_lock hpc (hlock hpc).1 (hlock hpc).2⟩
    | load => exact ⟨_, _, _, MyPrintk_b.load hpc⟩
    | store => exact ⟨_, _, _, MyPrintk_b.store hpc⟩
    | print => exact ⟨_, _, _, MyPrintk_b.print hpc⟩
    | unlock => exact ⟨_, _, _, MyPrintk_b.write_unlock hpc⟩
    | finished => exact absurd hpc hfinished

/-- Some thread can take a step as long as not all have finished. -/
theorem run_not_stuck (h : Run (Threads.Step (thread role)) (init_kthread started) es w)
    (hleft : ∃ t, (w.loc t).pc ≠ .finished) : ∃ e w', Threads.Step (thread role) w e w' := by
  have hfree : ∃ t, (w.loc t).pc ≠ .finished ∧ ((w.loc t).pc = .lock →
      w.shared.my_rw_spin_lock.writer = none ∧ ∀ u, w.shared.my_rw_spin_lock.readers u = false) := by
    by_cases hin : ∃ t, (w.loc t).pc.inside = true
    · obtain ⟨t, ht⟩ := hin
      refine ⟨t, fun hpc ↦ ?_, fun hpc ↦ ?_⟩
      · rw [hpc] at ht
        cases ht
      · rw [hpc] at ht
        cases ht
    · obtain ⟨t, ht⟩ := hleft
      have hout : ∀ u, (w.loc u).pc.inside = false := fun u ↦
        Bool.eq_false_iff.mpr fun hu ↦ hin ⟨u, hu⟩
      exact ⟨t, ht, fun _ ↦ run_lock_free h hout⟩
  obtain ⟨t, hfinished, hlock⟩ := hfree
  obtain ⟨e, s, l, hst⟩ := run_steps h hlock hfinished
  exact ⟨_, _, .mk hst⟩

end Runs

/-- Any number of threads increment and read the counter under the lock, in any order.  What they print is
what an atomic counter would say: no increment is lost, and each reader has the number that was printed
last.  A thread that holds the lock for writing is alone, and the threads never wait for each other for
ever. -/
theorem rwlock_counts {τ : Type*} [DecidableEq τ] {role : τ → Role} {started : τ → Bool}
    {es : List (Event τ)} {w : Threads τ (Shared τ) Local}
    (h : Run (Threads.Step (thread role)) (init_kthread started) es w) :
    Run CounterStep 0#32 (es.filterMap (op role)) (total role es) ∧
      (∀ t u, u ≠ t → role t = .writer → (w.loc t).pc.inside = true → (w.loc u).pc.inside = false) ∧
      ((∃ t, (w.loc t).pc ≠ .finished) → ∃ e w', Threads.Step (thread role) w e w') := by
  refine ⟨?_, fun t u hne ht hin ↦ run_exclusive h hne ht hin, run_not_stuck h⟩
  refine Run.of_labels (total role) ?_ (run_asserted h).1.log
  rintro es ⟨t, v⟩ hquiet
  cases v with
  | none => rw [total, adds_quiet, total]
  | some v => cases hquiet

-- `MyThread_a`, `MyThread_b` and `MyThread_c`.
inductive Thread
  | a
  | b
  | c
  deriving DecidableEq

def Thread.role : Thread → Role
  | a => .reader
  | b => .writer
  | c => .writer

-- One thread increments, and then another one reads.
theorem rwlock_counts_two_threads :
    ∃ es w, Run (Threads.Step (thread Thread.role)) (init_kthread fun _ ↦ true) es w ∧
      es.filterMap (op Thread.role) = [.add 1#32, .get 1#32] ∧
      Run CounterStep 0#32 (es.filterMap (op Thread.role)) (total Thread.role es) := by
  have hwritten : Run (Threads.Step (thread Thread.role)) (init_kthread fun _ ↦ true)
      [(.b, none), (.b, none), (.b, none), (.b, none), (.b, some 1#32), (.b, none)] _ :=
    .snoc (.snoc (.snoc (.snoc (.snoc (.snoc .nil (.mk (MyPrintk_b.sleep rfl)))
      (.mk (MyPrintk_b.write_lock rfl rfl fun _ ↦ rfl))) (.mk (MyPrintk_b.load rfl)))
      (.mk (MyPrintk_b.store rfl))) (.mk (MyPrintk_b.print rfl))) (.mk (MyPrintk_b.write_unlock rfl))
  have hread : Run (Threads.Step (thread Thread.role)) (init_kthread fun _ ↦ true)
      ([(.b, none), (.b, none), (.b, none), (.b, none), (.b, some 1#32), (.b, none)] ++
        [(.a, none)] ++ [(.a, none)] ++ [(.a, none)] ++ [(.a, some 1#32)]) _ :=
    .snoc (.snoc (.snoc (.snoc hwritten (.mk (MyPrintk_a.sleep rfl)))
      (.mk (MyPrintk_a.read_lock rfl rfl))) (.mk (MyPrintk_a.load rfl))) (.mk (MyPrintk_a.print rfl))
  exact ⟨_, _, hread, rfl, (rwlock_counts hread).1⟩

end Lab32

end OK210Drivers.Counter
