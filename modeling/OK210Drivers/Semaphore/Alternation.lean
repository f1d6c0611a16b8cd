import Mathlib.Data.Fin.VecNotation
import Mathlib.Data.List.OfFn
import Mathlib.Logic.Function.Basic
import OK210Drivers.Library.Runs

/-!
# Two threads and two semaphores

Each thread waits for its own semaphore, prints a number and releases the other one's.  Both counts are
tied to how far the threads are: what a thread has taken, the other one has released.
-/

open Library

namespace OK210Drivers.Semaphore

inductive Thread
  | one
  | two
  deriving DecidableEq

def Thread.other : Thread → Thread
  | .one => .two
  | .two => .one

-- The statement that a thread is at.
inductive Pc
  | start
  | down
  | print
  | up
  | line
  | finished
  deriving DecidableEq

-- `"This is thread one\n"`, `" %d "` and `"thread_one:\n"`.
inductive Output
  | hello (t : Thread)
  | value (v : Int)
  | line (t : Thread)

/-- `sem` is `sem1` for thread one and `sem2` for thread two. -/
structure State where
  sem : Thread → Nat
  pc : Thread → Pc
  i : Thread → Nat
  out : List Output

def demo_init : State where
  sem t := if t = .one then 1 else 0
  pc _ := .start
  i _ := 0
  out := []

def State.goto (s : State) (t : Thread) (pc : Pc) : State :=
  { s with pc := Function.update s.pc t pc }

-- The test of the loop.
def loop (n i : Nat) : Pc := if i < n then .down else .finished

/-- A step of `thread_one` or `thread_two` with `n` rounds. -/
inductive Step {n : Nat} (num : Thread → Fin n → Int) : State → Thread → State → Prop
  | start {s t} : s.pc t = .start →
      Step num s t { s.goto t (loop n 0) with out := s.out ++ [.hello t] }
  | down {s t} : s.pc t = .down → 0 < s.sem t →
      Step num s t { s.goto t .print with sem := Function.update s.sem t (s.sem t - 1) }
  | print {s t} (h : s.i t < n) : s.pc t = .print →
      Step num s t { s.goto t .up with out := s.out ++ [.value (num t ⟨s.i t, h⟩)] }
  | up {s t} : s.pc t = .up →
      Step num s t
        { s.goto t .line with sem := Function.update s.sem t.other (s.sem t.other + 1) }
  | line {s t} : s.pc t = .line →
      Step num s t
        { s.goto t (loop n (s.i t + 1)) with
          i := Function.update s.i t (s.i t + 1)
          out := s.out ++ [.line t] }

def Output.value? : Output → Option Int
  | .value v => some v
  | _ => none

/-- The numbers that have been printed. -/
def State.printed (s : State) : List Int := s.out.filterMap Output.value?

/-- `num[0][0], num[1][0], num[0][1], num[1][1], ..` -/
def alternation {n : Nat} (num : Thread → Fin n → Int) : List Int :=
  List.ofFn fun k : Fin (2 * n) ↦
    num (if k.val % 2 = 0 then .one else .two) ⟨k.val / 2, by omega⟩

/-- Both threads have returned. -/
def State.Done (s : State) : Prop := ∀ t, s.pc t = .finished

def Pc.downs : Pc → Nat
  | .print | .up | .line => 1
  | _ => 0

def Pc.prints : Pc → Nat
  | .up | .line => 1
  | _ => 0

def Pc.ups : Pc → Nat
  | .line => 1
  | _ => 0

/-- How often a thread has taken its semaphore, printed a number and released the other semaphore. -/
def State.downs (s : State) (t : Thread) : Nat := s.i t + (s.pc t).downs
def State.prints (s : State) (t : Thread) : Nat := s.i t + (s.pc t).prints
def State.ups (s : State) (t : Thread) : Nat := s.i t + (s.pc t).ups

/-- The round of a thread is 0 at its start and `n` at its end, and below `n` in between. -/
def InRound (n : Nat) (s : State) (t : Thread) : Prop :=
  s.pc t = .start ∧ s.i t = 0 ∨ s.pc t = .finished ∧ s.i t = n ∨
    s.pc t ≠ .start ∧ s.pc t ≠ .finished ∧ s.i t < n

/-- What has been taken of a semaphore is what it had and what the other thread has released.  The
rounds are within the bound, and the printed numbers are the first ones of the alternation. -/
structure Inv {n : Nat} (num : Thread → Fin n → Int) (s : State) : Prop where
  sem1 : s.sem .one + s.downs .one = s.ups .two + 1
  sem2 : s.sem .two + s.downs .two = s.ups .one
  round : ∀ t, InRound n s t
  printed : s.printed = (alternation num).take (s.prints .one + s.prints .two)

section Counts

variable {s s' : State} {t u : Thread}

theorem Pc.counts (pc : Pc) : pc.ups ≤ pc.prints ∧ pc.prints ≤ pc.downs ∧ pc.downs ≤ pc.ups + 1 := by
  cases pc <;> decide

theorem counts (s : State) (t : Thread) :
    s.ups t ≤ s.prints t ∧ s.prints t ≤ s.downs t ∧ s.downs t ≤ s.ups t + 1 := by
  have h := (s.pc t).counts
  unfold State.ups State.prints State.downs
  omega

theorem other_ne (t : Thread) : t.other ≠ t := by cases t <;> decide

theorem forall_thread {p : Thread → Prop} (t : Thread) : (∀ u, p u) ↔ p t ∧ p t.other := by
  constructor
  · exact fun h ↦ ⟨h t, h t.other⟩
  · rintro ⟨ht, hother⟩ u
    cases t <;> cases u
    · exact ht
    · exact hother
    · exact hother
    · exact ht

/-- What a step of a thread does: how many semaphores it takes, numbers it prints and semaphores it
releases, and which numbers these are.  The other thread stays where it is. -/
structure Effect (s : State) (t : Thread) (s' : State) (taken new : Nat) (released : Nat)
    (numbers : List Int) : Prop where
  sem : s'.sem t + taken = s.sem t
  sem_other : s'.sem t.other = s.sem t.other + released
  downs : s'.downs t = s.downs t + taken
  prints : s'.prints t = s.prints t + new
  ups : s'.ups t = s.ups t + released
  pc_other : s'.pc t.other = s.pc t.other
  i_other : s'.i t.other = s.i t.other
  printed : s'.printed = s.printed ++ numbers

theorem Effect.other {taken new released : Nat} {numbers : List Int}
    (h : Effect s t s' taken new released numbers) : s'.downs t.other = s.downs t.other ∧
      s'.prints t.other = s.prints t.other ∧ s'.ups t.other = s.ups t.other := by
  unfold State.downs State.prints State.ups
  rw [h.pc_other, h.i_other]
  exact ⟨rfl, rfl, rfl⟩

end Counts

section Steps

variable {n : Nat} {num : Thread → Fin n → Int} {s s' : State} {t : Thread} {ts : List Thread}

theorem InRound.eq_zero (h : InRound n s t) (hpc : s.pc t = .start) : s.i t = 0 := by
  rcases h with ⟨_, h⟩ | ⟨hf, _⟩ | ⟨hne, _⟩
  · exact h
  · rw [hpc] at hf
    cases hf
  · exact absurd hpc hne

theorem InRound.eq_n (h : InRound n s t) (hpc : s.pc t = .finished) : s.i t = n := by
  rcases h with ⟨hs, _⟩ | ⟨_, h⟩ | ⟨_, hne, _⟩
  · rw [hpc] at hs
    cases hs
  · exact h
  · exact absurd hpc hne

theorem InRound.lt (h : InRound n s t) (hstart : s.pc t ≠ .start) (hfinished : s.pc t ≠ .finished) :
    s.i t < n := by
  rcases h with ⟨h, _⟩ | ⟨h, _⟩ | ⟨_, _, h⟩
  · exact absurd h hstart
  · exact absurd h hfinished
  · exact h

theorem loop_cases (n i : Nat) : loop n i = .down ∧ i < n ∨ loop n i = .finished ∧ n ≤ i := by
  unfold loop
  by_cases h : i < n
  · rw [if_pos h]
    exact Or.inl ⟨rfl, h⟩
  · rw [if_neg h]
    exact Or.inr ⟨rfl, by omega⟩

-- At the head of the loop nothing has been done in the round.
theorem loop_counts (n i : Nat) :
    (loop n i).downs = 0 ∧ (loop n i).prints = 0 ∧ (loop n i).ups = 0 := by
  rcases loop_cases n i with ⟨h, _⟩ | ⟨h, _⟩
  · rw [h]
    exact ⟨rfl, rfl, rfl⟩
  · rw [h]
    exact ⟨rfl, rfl, rfl⟩

-- A thread that moves from one statement to another counts what the two differ by.
theorem effect_of_pc {pc pc' : Pc} {i taken new released : Nat} {numbers : List Int}
    (hat : s.pc t = pc) (hpc : s'.pc = Function.update s.pc t pc')
    (hi : s'.i = Function.update s.i t i) (hsem : s'.sem t + taken = s.sem t)
    (hsem' : s'.sem t.other = s.sem t.other + released)
    (hdowns : i + pc'.downs = s.i t + pc.downs + taken)
    (hprints : i + pc'.prints = s.i t + pc.prints + new)
    (hups : i + pc'.ups = s.i t + pc.ups + released) (hprinted : s'.printed = s.printed ++ numbers) :
    Effect s t s' taken new released numbers := by
  have hpct : s'.pc t = pc' := by rw [hpc, Function.update_self]
  have hit : s'.i t = i := by rw [hi, Function.update_self]
  refine ⟨hsem, hsem', ?_, ?_, ?_, ?_, ?_, hprinted⟩
  · rw [State.downs, State.downs, hpct, hit, hdowns, hat]
  · rw [State.prints, State.prints, hpct, hit, hprints, hat]
  · rw [State.ups, State.ups, hpct, hit, hups, hat]
  · rw [hpc, Function.update_of_ne (other_ne t)]
  · rw [hi, Function.update_of_ne (other_ne t)]

theorem printed_snoc (out : List Output) (o : Output) :
    (out ++ [o]).filterMap Output.value? = out.filterMap Output.value? ++ o.value?.toList := by
  rw [List.filterMap_append]
  cases o with
  | _ => rfl

theorem step_effect (hs : Step num s t s') (hround : InRound n s t) :
    (∃ taken released, Effect s t s' taken 0 released []) ∨
      ∃ h : s.prints t < n, s.downs t = s.prints t + 1 ∧
        Effect s t s' 0 1 0 [num t ⟨s.prints t, h⟩] := by
  have hsame : s.i = Function.update s.i t (s.i t) := (Function.update_eq_self t s.i).symm
  cases hs with
  | start hpc =>
    obtain ⟨hd, hp, hu⟩ := loop_counts n 0
    have hi0 := hround.eq_zero hpc
    refine Or.inl ⟨0, 0, effect_of_pc hpc rfl hsame rfl rfl ?_ ?_ ?_ (printed_snoc ..)⟩
    · rw [hi0, hd]
      rfl
    · rw [hi0, hp]
      rfl
    · rw [hi0, hu]
      rfl
  | down hpc hsem =>
    refine Or.inl ⟨1, 0, effect_of_pc hpc rfl hsame ?_ ?_ rfl rfl rfl (List.append_nil _).symm⟩
    · show Function.update s.sem t (s.sem t - 1) t + 1 = _
      rw [Function.update_self]
      omega
    · exact Function.update_of_ne (other_ne t) ..
  | print h hpc =>
    have hprints : s.prints t = s.i t := by
      rw [State.prints, hpc]
      rfl
    have hdowns : s.downs t = s.i t + 1 := by
      rw [State.downs, hpc]
      rfl
    refine Or.inr ⟨hprints ▸ h, ?_, effect_of_pc hpc rfl hsame rfl rfl rfl rfl rfl ?_⟩
    · rw [hdowns, hprints]
    · simp only [hprints]
      exact printed_snoc ..
  | up hpc =>
    refine Or.inl ⟨0, 1, effect_of_pc hpc rfl hsame ?_ ?_ rfl rfl rfl (List.append_nil _).symm⟩
    · exact Function.update_of_ne (other_ne t).symm ..
    · exact Function.update_self ..
  | line hpc =>
    obtain ⟨hd, hp, hu⟩ := loop_counts n (s.i t + 1)
    refine Or.inl ⟨0, 0, effect_of_pc hpc rfl rfl rfl rfl ?_ ?_ ?_ (printed_snoc ..)⟩
    · rw [hd]
      rfl
    · rw [hp]
      rfl
    · rw [hu]
      rfl

theorem inRound_loop {i : Nat} (hpc : s.pc t = loop n i) (hi : s.i t = i) (hle : i ≤ n) :
    InRound n s t := by
  unfold InRound
  rw [hpc, hi]
  rcases loop_cases n i with ⟨h, hlt⟩ | ⟨h, hge⟩
  · rw [h]
    exact Or.inr (Or.inr ⟨by decide, by decide, hlt⟩)
  · rw [h]
    exact Or.inr (Or.inl ⟨rfl, by omega⟩)

theorem inRound_step (hs : Step num s t s') (h : InRound n s t) : InRound n s' t := by
  have inside {pc : Pc} (hpc' : s'.pc t = pc) (hi : s'.i t = s.i t) (hlt : s.i t < n)
      (hstart : pc ≠ .start) (hfinished : pc ≠ .finished) : InRound n s' t := by
    subst hpc'
    exact Or.inr (Or.inr ⟨hstart, hfinished, hi ▸ hlt⟩)
  cases hs with
  | start hpc =>
    exact inRound_loop (Function.update_self ..) (h.eq_zero hpc) (Nat.zero_le n)
  | down hpc _ =>
    exact inside (Function.update_self ..) rfl (h.lt (by simp [hpc]) (by simp [hpc])) (by decide)
      (by decide)
  | print hlt _ => exact inside (Function.update_self ..) rfl hlt (by decide) (by decide)
  | up hpc =>
    exact inside (Function.update_self ..) rfl (h.lt (by simp [hpc]) (by simp [hpc])) (by decide)
      (by decide)
  | line hpc =>
    have hlt := h.lt (by simp [hpc]) (by simp [hpc])
    exact inRound_loop (Function.update_self ..) (Function.update_self ..) (by omega)

-- The next number of the alternation.
theorem alternation_take {k : Nat} (hk : k < 2 * n) :
    (alternation num).take (k + 1) = (alternation num).take k ++
      [num (if k % 2 = 0 then .one else .two) ⟨k / 2, by omega⟩] := by
  have hlen : k < (alternation num).length := by
    unfold alternation
    rwa [List.length_ofFn]
  have hget : (alternation num)[k] =
      num (if k % 2 = 0 then .one else .two) ⟨k / 2, by omega⟩ := List.getElem_ofFn ..
  rw [List.take_succ_eq_append_getElem hlen, hget]

-- The number of a thread's round stands where both threads have printed all before it.
theorem alternation_take_turn {k p : Nat} (hp : p < n) (hk : k = 2 * p + if t = .one then 0 else 1) :
    (alternation num).take (k + 1) = (alternation num).take k ++ [num t ⟨p, hp⟩] := by
  cases t with
  | one =>
    obtain rfl : k = 2 * p := hk
    have heven : 2 * p % 2 = 0 := by omega
    have hhalf : 2 * p / 2 = p := by omega
    rw [alternation_take (show 2 * p < 2 * n by omega)]
    simp only [heven, hhalf, if_pos]
  | two =>
    obtain rfl : k = 2 * p + 1 := hk
    have hodd : (2 * p + 1) % 2 = 1 := by omega
    have hhalf : (2 * p + 1) / 2 = p := by omega
    rw [alternation_take (show 2 * p + 1 < 2 * n by omega)]
    simp only [hodd, hhalf]
    rfl

/-- How the semaphores tie the threads together. -/
def Tied (s : State) : Prop :=
  s.sem .one + s.downs .one = s.ups .two + 1 ∧ s.sem .two + s.downs .two = s.ups .one

theorem tied_step {taken new released : Nat} {numbers : List Int}
    (h : Effect s t s' taken new released numbers) (htied : Tied s) : Tied s' := by
  obtain ⟨hdowns, _, hups⟩ := h.other
  have hsem := h.sem
  have hsem' := h.sem_other
  have hd := h.downs
  have hu := h.ups
  unfold Tied at htied ⊢
  cases t with
  | one =>
    simp only [Thread.other] at hdowns hups hsem'
    omega
  | two =>
    simp only [Thread.other] at hdowns hups hsem'
    omega

theorem prints_sum (s : State) (t : Thread) :
    s.prints .one + s.prints .two = s.prints t + s.prints t.other := by
  cases t with
  | one => rfl
  | two => exact Nat.add_comm ..

-- When a thread is about to print, the numbers printed so far are all those before its own.
theorem prints_eq (h : Tied s) (ht : s.downs t = s.prints t + 1) :
    s.prints .one + s.prints .two = 2 * s.prints t + if t = .one then 0 else 1 := by
  unfold Tied at h
  have h1 := counts s .one
  have h2 := counts s .two
  cases t with
  | one =>
    rw [if_pos rfl]
    omega
  | two =>
    rw [if_neg (by decide)]
    omega

theorem forall_inRound_step {taken new released : Nat} {numbers : List Int} (hs : Step num s t s')
    (he : Effect s t s' taken new released numbers) (h : ∀ u, InRound n s u) : ∀ u, InRound n s' u := by
  rw [forall_thread t]
  refine ⟨inRound_step hs (h t), ?_⟩
  have hother := h t.other
  unfold InRound at hother ⊢
  rwa [he.pc_other, he.i_other]

theorem inv_step (hs : Step num s t s') (h : Inv num s) : Inv num s' := by
  have htied : Tied s := ⟨h.sem1, h.sem2⟩
  rcases step_effect hs (h.round t) with ⟨taken, released, he⟩ | ⟨hlt, hdowns, he⟩
  · obtain ⟨h1, h2⟩ := tied_step he htied
    refine ⟨h1, h2, forall_inRound_step hs he h.round, ?_⟩
    rw [he.printed, List.append_nil, h.printed, prints_sum s' t, he.prints, he.other.2.1,
      prints_sum s t, Nat.add_zero]
  · obtain ⟨h1, h2⟩ := tied_step he htied
    refine ⟨h1, h2, forall_inRound_step hs he h.round, ?_⟩
    have hnext : s'.prints .one + s'.prints .two = s.prints .one + s.prints .two + 1 := by
      rw [prints_sum s' t, he.prints, he.other.2.1, prints_sum s t]
      omega
    rw [hnext, alternation_take_turn hlt (prints_eq htied hdowns), he.printed, h.printed]

theorem inv_init : Inv num demo_init where
  sem1 := rfl
  sem2 := rfl
  round _ := Or.inl ⟨rfl, rfl⟩
  printed := rfl

theorem inv_run (hr : Run (Step num) demo_init ts s) : Inv num s :=
  hr.state_invariant (Inv num) inv_init fun _ _ _ hi hs ↦ inv_step hs hi

-- A thread that cannot move has returned or waits for its semaphore.
theorem stuck_cases (h : InRound n s t) (hstuck : ∀ s', ¬Step num s t s') :
    s.pc t = .finished ∧ s.i t = n ∨ s.pc t = .down ∧ s.sem t = 0 ∧ s.i t < n := by
  cases hpc : s.pc t with
  | start => exact absurd (.start hpc) (hstuck _)
  | down =>
    refine Or.inr ⟨rfl, ?_, h.lt (by simp [hpc]) (by simp [hpc])⟩
    by_contra hsem
    exact hstuck _ (.down hpc (Nat.pos_of_ne_zero hsem))
  | print => exact absurd (.print (h.lt (by simp [hpc]) (by simp [hpc])) hpc) (hstuck _)
  | up => exact absurd (.up hpc) (hstuck _)
  | line => exact absurd (.line hpc) (hstuck _)
  | finished => exact Or.inl ⟨rfl, h.eq_n hpc⟩

theorem no_deadlock (h : Inv num s) : s.Done ∨ ∃ t s', Step num s t s' := by
  by_contra hdead
  rw [not_or] at hdead
  obtain ⟨hdone, hnone⟩ := hdead
  have hstuck (t : Thread) := stuck_cases (h.round t) fun s' hs ↦ hnone ⟨t, s', hs⟩
  have h1 := h.sem1
  have h2 := h.sem2
  unfold State.downs State.ups at h1 h2
  rcases hstuck .one with ⟨hpc1, hi1⟩ | ⟨hpc1, hsem1, hi1⟩
  · rcases hstuck .two with ⟨hpc2, _⟩ | ⟨hpc2, hsem2, hi2⟩
    · exact hdone ((forall_thread .one).mpr ⟨hpc1, hpc2⟩)
    · simp only [hpc1, hpc2, Pc.downs, Pc.ups] at h1 h2
      omega
  · rcases hstuck .two with ⟨hpc2, hi2⟩ | ⟨hpc2, hsem2, hi2⟩
    · simp only [hpc1, hpc2, Pc.downs, Pc.ups] at h1 h2
      omega
    · simp only [hpc1, hpc2, Pc.downs, Pc.ups] at h1 h2
      omega

end Steps

/-- The threads print the numbers alternately, and as long as one of them has not returned, one of them
can move. -/
theorem threads_alternate {n : Nat} (num : Thread → Fin n → Int) {ts : List Thread} {s : State}
    (hr : Run (Step num) demo_init ts s) :
    s.printed <+: alternation num ∧ (s.Done ∨ ∃ t s', Step num s t s') := by
  have h := inv_run hr
  rw [h.printed]
  exact ⟨List.take_prefix _ _, no_deadlock h⟩

-- The numbers of the module.
def num : Thread → Fin 5 → Int
  | .one => ![0, 2, 4, 6, 8]
  | .two => ![1, 3, 5, 7, 9]

-- Thread one prints its first number, and thread two after it.
theorem threads_alternate_first :
    ∃ s, Run (Step num) demo_init [.one, .two, .one, .one, .one, .two, .two] s ∧ s.printed = [0, 1] ∧
      s.printed <+: alternation num ∧ (s.Done ∨ ∃ t s', Step num s t s') := by
  have hstart : Run (Step num) demo_init [.one, .two] _ := .snoc (.snoc .nil (.start rfl)) (.start rfl)
  have hone : Run (Step num) demo_init [.one, .two, .one, .one, .one] _ :=
    ((hstart.snoc (.down rfl (by decide))).snoc (.print (by decide) rfl)).snoc (.up rfl)
  have htwo : Run (Step num) demo_init [.one, .two, .one, .one, .one, .two, .two] _ :=
    (hone.snoc (.down rfl (by decide))).snoc (.print (by decide) rfl)
  exact ⟨_, htwo, rfl, threads_alternate num htwo⟩

/-- When both threads have returned, all the numbers have been printed. -/
theorem printed_of_done {n : Nat} {num : Thread → Fin n → Int} {ts : List Thread} {s : State}
    (hr : Run (Step num) demo_init ts s) (hdone : s.Done) : s.printed = alternation num := by
  have h := inv_run hr
  have hprints (t : Thread) : s.prints t = n := by
    rw [State.prints, hdone t, (h.round t).eq_n (hdone t)]
    rfl
  rw [h.printed, hprints, hprints]
  apply List.take_of_length_le
  unfold alternation
  rw [List.length_ofFn]
  omega

end OK210Drivers.Semaphore
