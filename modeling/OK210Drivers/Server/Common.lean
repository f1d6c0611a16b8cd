import Mathlib.Order.Bounds.Basic
import OK210Drivers.Library.Lowest
import OK210Drivers.Library.Slots

/-!
# What the concurrent servers share

`lab_server.h`: the constants and the functions that all of the servers call.  A descriptor is an
`int`; `isopen` and `cd` are the arrays of `malloc`, so what they hold before the first assignment is
arbitrary.  `DEATH` ends the process, here `none`.
-/

open Library

namespace OK210Drivers.Server

def FD_SETSIZE : Nat := 1024

/-- The search of `accept_one` for a free slot, and `answer`, what `accept` returns. -/
def accept_one (isopen : Nat → Bool) (cd : Nat → Int) (ncons : Nat) (answer : Int) :
    Option (Nat × (Nat → Int)) :=
  let ci := firstFree isopen ncons
  if answer < 0 then none else some (ci, Function.update cd ci answer)

/-- `handle_client`, where `recv` returns `count`. -/
def handle_client (count : Int) : Int :=
  if count > 0 then 0 else -1

/-- One turn of the loop of `get_max_fd`. -/
def max_fd_step (isopen : Nat → Bool) (cd : Nat → Int) (fdmax : Int) (j : Nat) : Int :=
  if isopen j && decide (cd j > fdmax) then cd j else fdmax

def get_max_fd (fdmax_p : Int) (isopen : Nat → Bool) (cd : Nat → Int) (ncons : Nat) : Int :=
  (List.range ncons).foldl (max_fd_step isopen cd) fdmax_p

/-- `accept` returns a descriptor that is not open. -/
def AcceptNew (fds : Finset Int) (fd : Int) : Prop :=
  0 ≤ fd ∧ fd ∉ fds

/-- `accept` returns the lowest descriptor that is not open. -/
def AcceptLowest (fds : Finset Int) (fd : Int) : Prop :=
  IsLeast {d : Int | 0 ≤ d ∧ d ∉ fds} fd

theorem le_max_fd_step (isopen : Nat → Bool) (cd : Nat → Int) (fdmax : Int) (j : Nat) :
    fdmax ≤ max_fd_step isopen cd fdmax j := by
  unfold max_fd_step
  split
  next h =>
    simp only [Bool.and_eq_true, decide_eq_true_eq] at h
    omega
  next => omega

/-- `get_max_fd` never lowers the maximum it is given. -/
theorem le_get_max_fd (fdmax_p : Int) (isopen : Nat → Bool) (cd : Nat → Int) (ncons : Nat) :
    fdmax_p ≤ get_max_fd fdmax_p isopen cd ncons := by
  unfold get_max_fd
  induction ncons with
  | zero => simp
  | succ n ih =>
    rw [List.range_succ, List.foldl_append]
    exact ih.trans (le_max_fd_step ..)

theorem cd_le_get_max_fd {fdmax_p : Int} {isopen : Nat → Bool} {cd : Nat → Int} {ncons j : Nat}
    (hj : j < ncons) (hopen : isopen j = true) : cd j ≤ get_max_fd fdmax_p isopen cd ncons := by
  unfold get_max_fd
  induction ncons with
  | zero => omega
  | succ n ih =>
    rw [List.range_succ, List.foldl_append]
    rcases Nat.lt_succ_iff_lt_or_eq.mp hj with hlt | rfl
    · exact (ih hlt).trans (le_max_fd_step ..)
    · simp only [List.foldl_cons, List.foldl_nil, max_fd_step, hopen, Bool.true_and,
        decide_eq_true_eq]
      split
      next => exact le_rfl
      next hle => exact not_lt.mp hle

theorem get_max_fd_le {fdmax_p b : Int} {isopen : Nat → Bool} {cd : Nat → Int} {ncons : Nat}
    (h : fdmax_p ≤ b) (hall : ∀ j < ncons, isopen j = true → cd j ≤ b) :
    get_max_fd fdmax_p isopen cd ncons ≤ b := by
  unfold get_max_fd
  induction ncons with
  | zero => exact h
  | succ n ih =>
    rw [List.range_succ, List.foldl_append]
    have hbefore := ih fun j hj ↦ hall j (hj.trans (Nat.lt_succ_self n))
    simp only [List.foldl_cons, List.foldl_nil, max_fd_step]
    split
    next hc =>
      simp only [Bool.and_eq_true] at hc
      exact hall n (Nat.lt_succ_self n) hc.1
    next => exact hbefore

theorem acceptLowest_iff {fds : Finset Int} {fd : Int} :
    AcceptLowest fds fd ↔ 0 ≤ fd ∧ fd ∉ fds ∧ ∀ d < fd.toNat, (d : Int) ∈ fds := by
  constructor
  · rintro ⟨⟨h0, hfd⟩, hleast⟩
    refine ⟨h0, hfd, fun d hd ↦ ?_⟩
    by_contra hnot
    have hle := hleast ⟨Int.natCast_nonneg d, hnot⟩
    omega
  · rintro ⟨h0, hfd, hbelow⟩
    refine ⟨⟨h0, hfd⟩, fun d hd ↦ ?_⟩
    by_contra hlt
    have hmem := hbelow d.toNat (by have hd0 := hd.1; omega)
    rw [Int.toNat_of_nonneg hd.1] at hmem
    exact hd.2 hmem

instance (fds : Finset Int) (fd : Int) : Decidable (AcceptLowest fds fd) :=
  decidable_of_iff _ acceptLowest_iff.symm

-- Slot `m` is the first free one, so the lowest free descriptor is the `m`-th outside of `base`.
theorem acceptLowest_spare {base fds : Finset Int} {taken : Nat → Prop} {m : Nat}
    (hfds : ∀ d, d ∈ fds ↔ d ∈ base ∨ ∃ j, taken j ∧ spare base j = d)
    (hlt : ∀ j < m, taken j) (hm : ¬taken m) : AcceptLowest fds (spare base m) := by
  have hset : {d : Int | 0 ≤ d ∧ d ∉ fds} =
      {d : Int | 0 ≤ d ∧ d ∉ base ∧ ∀ j, taken j → spare base j ≠ d} := by
    ext d
    simp only [Set.mem_ofPred_eq, hfds, not_or, not_exists, not_and]
  unfold AcceptLowest
  rw [hset]
  exact isLeast_spare hlt hm

theorem AcceptLowest.eq_spare {base fds : Finset Int} {fd : Int} {taken : Nat → Prop} {m : Nat}
    (h : AcceptLowest fds fd) (hfds : ∀ d, d ∈ fds ↔ d ∈ base ∨ ∃ j, taken j ∧ spare base j = d)
    (hlt : ∀ j < m, taken j) (hm : ¬taken m) : fd = spare base m :=
  h.unique (acceptLowest_spare hfds hlt hm)

end OK210Drivers.Server
