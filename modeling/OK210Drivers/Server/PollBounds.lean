import OK210Drivers.Library.Runs
import OK210Drivers.Server.Poll

/-!
# How many entries poll() is asked to look at

`fdmax` is the highest descriptor, and `fdmax + 1` is given to `poll` as the length of `ufds`.  Slots and
descriptors are given out lowest first, so client slot `i + 1` only ever holds the `i`-th descriptor that
was not open at the start, and `fdmax` lies between the two.  `get_max_fd` however also looks at slot
0, which is marked as used and whose `cd` entry is never assigned.
-/

open Library

namespace OK210Drivers.Server.Poll

open Select (Pc)

/-- The descriptors that are open when the loop is entered. -/
def base (sd : Int) : Finset Int := insert sd {0, 1, 2}

/-- Which of the slots from 1 on are used. -/
def State.clients (s : State) (i : Nat) : Bool := s.isopen (i + 1)

/-- Slot `i + 1` has a client. -/
def Taken (s : State) (i : Nat) : Prop := i < s.ncons ∧ s.clients i = true

/-- `c` is what `malloc` left in `cd[0]`. -/
structure Inv (ncons : Nat) (sd c : Int) (s : State) : Prop where
  ncons_eq : s.ncons = ncons
  sd_eq : s.sd = sd
  cd_zero : s.cd 0 = c
  nopen_eq : s.nopen = (usedSlots s.clients s.ncons).card
  cd_eq : ∀ i, Taken s i → s.cd (i + 1) = spare (base sd) i
  fds_eq : ∀ d, d ∈ s.fds ↔ d ∈ base sd ∨ ∃ i, Taken s i ∧ spare (base sd) i = d
  le_fdmax : ∀ i, Taken s i → s.cd (i + 1) ≤ s.fdmax
  fdmax_nonneg : 0 ≤ s.fdmax
  listener_used : ∀ i, Taken s i → s.isopen 0 = true
  unused : ∀ i < entries ncons, ncons < i → s.isopen i = false
  calling : s.pc = .calling → sd ≤ s.fdmax
  serving : ∀ i, s.pc = .serving i → 0 < i

/-- A connection whose descriptor is `fdmax` is closed only when `cd[0]` is the number of an entry. -/
def Kept (ncons : Nat) (c : Int) (s : State) (e : Event) : Prop :=
  ∀ ci count, e = .handle ci s.fdmax count → handle_client count ≠ 0 → c ≤ ncons + 8

section Steps

variable {ncons : Nat} {sd c : Int} {s t : State} {e : Event} {i : Nat}

theorem spare_base_le (sd : Int) (i : Nat) : spare (base sd) i ≤ i + 4 := by
  have hle := spare_le (base sd) i
  have hcard : (base sd).card ≤ 3 + 1 := Finset.card_insert_le sd {0, 1, 2}
  omega

theorem lt_spare_base (sd : Int) (i : Nat) : (i : Int) + 1 < spare (base sd) i := by
  have hbelow : ∀ d < 3, ((d : Nat) : Int) ∈ base sd := by
    intro d hd
    have hmem : (d : Int) ∈ ({0, 1, 2} : Finset Int) := by
      simp only [Finset.mem_insert, Finset.mem_singleton]
      omega
    exact Finset.mem_insert_of_mem hmem
  have hle := le_spare hbelow i
  omega

theorem main_init_isopen {isopen : Nat → Bool} {cd : Nat → Int} {ufds : Nat → PollFd}
    {fds : Finset Int} (h0 : main_init ncons sd isopen cd ufds fds = some s) :
    s.ncons = ncons ∧ ∀ i < entries ncons, s.isopen i = false := by
  unfold main_init at h0
  split at h0
  next => cases h0
  next =>
    cases h0
    exact ⟨rfl, fun i hi ↦ if_pos hi⟩

theorem inv_main_init {isopen : Nat → Bool} {cd : Nat → Int} {ufds : Nat → PollFd}
    (h0 : main_init ncons sd isopen cd ufds {0, 1, 2} = some s) : Inv ncons sd (cd 0) s := by
  rcases main_init_isopen h0 with ⟨hn, hfree⟩
  have hclient : ∀ i < s.ncons, s.clients i = false := by
    intro i hi
    exact hfree (i + 1) (by unfold entries; omega)
  have hnone : ∀ i, ¬Taken s i := by
    rintro i ⟨hi, hopen⟩
    rw [hclient i hi] at hopen
    cases hopen
  have hcard := usedSlots_empty hclient
  unfold main_init at h0
  split at h0
  next => cases h0
  next =>
    cases h0
    constructor
    case ncons_eq => rfl
    case sd_eq => rfl
    case cd_zero => rfl
    case nopen_eq =>
      rw [hcard]
      rfl
    case cd_eq => exact fun i hi ↦ absurd hi (hnone i)
    case fds_eq => exact fun d ↦ (or_iff_left fun ⟨i, hi, _⟩ ↦ hnone i hi).symm
    case le_fdmax => exact fun i hi ↦ absurd hi (hnone i)
    case fdmax_nonneg => exact le_rfl
    case listener_used => exact fun i hi ↦ absurd hi (hnone i)
    case unused => exact fun i hi _ ↦ hfree i hi
    case calling => intro hpc; cases hpc
    case serving => intro i hpc; cases hpc

theorem inv_enter (h : Inv ncons sd c s) : Inv ncons sd c (enter s) := by
  rw [enter_eq]
  exact { h with
    cd_eq := h.cd_eq
    fds_eq := h.fds_eq
    listener_used := h.listener_used
    le_fdmax := fun i hi ↦ (h.le_fdmax i hi).trans (le_max_right ..)
    fdmax_nonneg := h.fdmax_nonneg.trans (le_max_right ..)
    calling := fun _ ↦ h.sd_eq ▸ le_max_left ..
    serving := fun i hpc ↦ by cases hpc }

/-- The search skips slot 0 and ends at the first free slot of the clients. -/
theorem Inv.slot_eq (h : Inv ncons sd c s) (hn : s.nopen < s.ncons) :
    ∃ m < s.ncons, firstFree (Function.update s.isopen 0 true) s.ncons = m + 1 ∧
      (∀ j < m, Taken s j) ∧ s.clients m = false := by
  have hcard := h.nopen_eq
  have hlt : firstFree s.clients s.ncons < s.ncons := firstFree_lt (by omega)
  refine ⟨_, hlt, ?_, fun j hj ↦ ⟨hj.trans hlt, used_of_lt_firstFree hj⟩, firstFree_free hlt⟩
  apply firstFree_behind (Function.update_self ..) _ hlt
  intro i _
  exact Function.update_of_ne (Nat.add_one_ne_zero i) ..

theorem update_succ {α : Type} (f : Nat → α) (m : Nat) (v : α) :
    (fun i ↦ Function.update f (m + 1) v (i + 1)) = Function.update (fun i ↦ f (i + 1)) m v :=
  Function.update_comp_eq_of_injective f Nat.succ_injective m v

/-- The new connection's descriptor has the number of its slot. -/
theorem accept_spare (h : Inv ncons sd c s) {m : Nat} (hbefore : ∀ j < m, Taken s j)
    (hfree : s.clients m = false) {fd : Int} (hacc : AcceptLowest s.fds fd) :
    fd = spare (base sd) m := by
  refine hacc.eq_spare h.fds_eq hbefore ?_
  rintro ⟨_, hopen⟩
  rw [hfree] at hopen
  cases hopen

theorem inv_accept_connection (h : Inv ncons sd c s) (hn : s.nopen < s.ncons) {fd : Int} {ci : Nat}
    (hacc : AcceptLowest s.fds fd) (ha : accept_connection s fd = some (ci, t)) :
    Inv ncons sd c t := by
  rcases h.slot_eq hn with ⟨m, hm, hslot, hbefore, hfree⟩
  have hfd := accept_spare h hbefore hfree hacc
  rcases accept_connection_eq ha with ⟨hci, rfl⟩
  rw [hslot] at hci
  subst hci
  have hclients : (fun i ↦ Function.update (Function.update s.isopen 0 true) (m + 1) true (i + 1)) =
      Function.update s.clients m true := by
    rw [update_succ]
    rfl
  have htaken : ∀ i, i < s.ncons ∧
      Function.update (Function.update s.isopen 0 true) (m + 1) true (i + 1) = true ↔
      i = m ∨ Taken s i := by
    intro i
    rw [congrFun hclients i]
    exact used_take hm i
  have hne : ∀ i, Taken s i → i + 1 ≠ m + 1 := by
    rintro i ⟨_, hui⟩ he
    rw [Nat.succ.inj he, hfree] at hui
    cases hui
  constructor
  case ncons_eq => exact h.ncons_eq
  case sd_eq => exact h.sd_eq
  case cd_zero =>
    simp only [Function.update_of_ne (show 0 ≠ m + 1 by omega)]
    exact h.cd_zero
  case nopen_eq =>
    have hcard := usedSlots_take_card hm hfree
    have hnopen := h.nopen_eq
    show s.nopen + 1 = ↑(usedSlots (fun i ↦
      Function.update (Function.update s.isopen 0 true) (m + 1) true (i + 1)) s.ncons).card
    rw [hclients]
    omega
  case cd_eq =>
    intro i hi
    rcases (htaken i).mp hi with rfl | hi
    · simp only [Function.update_self, hfd]
    · simp only [Function.update_of_ne (hne i hi)]
      exact h.cd_eq i hi
  case fds_eq =>
    rw [hfd]
    exact mem_insert_spare h.fds_eq htaken
  case le_fdmax =>
    intro i hi
    rcases (htaken i).mp hi with rfl | hi
    · simp only [Function.update_self]
      exact le_max_left ..
    · simp only [Function.update_of_ne (hne i hi)]
      exact (h.le_fdmax i hi).trans (le_max_right ..)
  case fdmax_nonneg => exact h.fdmax_nonneg.trans (le_max_right ..)
  case listener_used =>
    intro i _
    simp only [Function.update_of_ne (show 0 ≠ m + 1 by omega), Function.update_self]
  case unused =>
    intro i hi hlt
    have hle := h.ncons_eq
    simp only [Function.update_of_ne (show i ≠ m + 1 by omega),
      Function.update_of_ne (show i ≠ 0 by omega)]
    exact h.unused i hi hlt
  case calling => intro hpc; cases hpc
  case serving =>
    intro i hpc
    cases hpc
    exact Nat.one_pos

theorem fdmax_le_terminate_client (s : State) (ci : Nat) :
    s.fdmax ≤ (terminate_client s ci).fdmax := by
  rw [terminate_client_eq]
  simp only
  split
  next => exact le_get_max_fd ..
  next => exact le_rfl

theorem inv_terminate_client (h : Inv ncons sd c s) (hi : Taken s i)
    (hpc : s.pc = .serving (i + 1)) : Inv ncons sd c (terminate_client s (i + 1)) := by
  have hmax := fdmax_le_terminate_client s (i + 1)
  rw [terminate_client_eq] at hmax ⊢
  have hclients : (fun j ↦ Function.update s.isopen (i + 1) false (j + 1)) =
      Function.update s.clients i false := update_succ ..
  have htaken : ∀ j, j < s.ncons ∧ Function.update s.isopen (i + 1) false (j + 1) = true ↔
      j ≠ i ∧ Taken s j := by
    intro j
    rw [congrFun hclients j]
    exact used_drop j
  have hold : ∀ j, (j < s.ncons ∧ Function.update s.isopen (i + 1) false (j + 1) = true) →
      Taken s j := fun j hj ↦ ((htaken j).mp hj).2
  constructor
  case ncons_eq => exact h.ncons_eq
  case sd_eq => exact h.sd_eq
  case cd_zero => exact h.cd_zero
  case nopen_eq =>
    have hcard := usedSlots_drop_card hi.1 hi.2
    have hnopen := h.nopen_eq
    show s.nopen - 1 =
      ↑(usedSlots (fun j ↦ Function.update s.isopen (i + 1) false (j + 1)) s.ncons).card
    rw [hclients]
    omega
  case cd_eq => exact fun j hj ↦ h.cd_eq j (hold j hj)
  case fds_eq =>
    rw [h.cd_eq i hi]
    exact mem_erase_spare h.fds_eq htaken
  case le_fdmax => exact fun j hj ↦ (h.le_fdmax j (hold j hj)).trans hmax
  case fdmax_nonneg => exact h.fdmax_nonneg.trans hmax
  case listener_used =>
    intro j hj
    simp only [Function.update_of_ne (show 0 ≠ i + 1 by omega)]
    exact h.listener_used j (hold j hj)
  case unused =>
    intro j hj hlt
    by_cases hji : j = i + 1
    · simp only [hji, Function.update_self]
    · simp only [Function.update_of_ne hji]
      exact h.unused j hj hlt
  case calling =>
    intro hpc'
    rw [hpc] at hpc'
    cases hpc'
  case serving => exact h.serving

theorem Inv.goto (h : Inv ncons sd c s) {pc : Pc} (hcalling : pc ≠ .calling)
    (hserving : ∀ i, pc = .serving i → 0 < i) : Inv ncons sd c { s with pc := pc } :=
  { h with
    cd_eq := h.cd_eq
    fds_eq := h.fds_eq
    listener_used := h.listener_used
    le_fdmax := h.le_fdmax
    calling := fun hpc ↦ absurd hpc hcalling
    serving := hserving }

/-- A slot that is served is a client's. -/
theorem Inv.served (h : Inv ncons sd c s) {ci : Nat} (hpc : s.pc = .serving ci)
    (hci : ci < s.ncons + 1) (hr : readable s ci = true) : ∃ i, ci = i + 1 ∧ Taken s i := by
  have hopen := (readable_iff.mp hr).1
  have hpos := h.serving ci hpc
  cases ci with
  | zero => omega
  | succ i => exact ⟨i, rfl, by omega, hopen⟩

theorem inv_step (h : Inv ncons sd c s) (hs : Step AcceptLowest s e t) : Inv ncons sd c t := by
  cases hs with
  | enter _ => exact inv_enter h
  | poll _ =>
    exact { h with
      cd_eq := h.cd_eq
      fds_eq := h.fds_eq
      listener_used := h.listener_used
      le_fdmax := h.le_fdmax
      calling := fun hpc ↦ by cases hpc
      serving := fun _ hpc ↦ by cases hpc }
  | accept _ _ hn hacc ha => exact inv_accept_connection h hn hacc ha
  | noAccept _ _ =>
    refine h.goto (fun hpc ↦ by cases hpc) fun i hpc ↦ ?_
    cases hpc
    exact Nat.one_pos
  | handle hpc hci hr =>
    rcases h.served hpc hci hr with ⟨i, rfl, hi⟩
    have hserving : ∀ j, Pc.serving (i + 1 + 1) = .serving j → 0 < j := by
      intro j hj
      cases hj
      omega
    unfold serve
    split
    next => exact (inv_terminate_client h hi hpc).goto (fun hpc' ↦ by cases hpc') hserving
    next => exact h.goto (fun hpc' ↦ by cases hpc') hserving
  | pass hpc _ _ =>
    refine h.goto (fun hpc' ↦ by cases hpc') fun i hpc' ↦ ?_
    cases hpc'
    omega
  | wrap _ _ => exact h.goto (fun hpc' ↦ by cases hpc') fun _ hpc' ↦ by cases hpc'

/-- `fdmax` never goes down. -/
theorem fdmax_step {acc : Finset Int → Int → Prop} (hs : Step acc s e t) : s.fdmax ≤ t.fdmax := by
  cases hs with
  | enter _ =>
    rw [enter_eq]
    exact le_max_right ..
  | accept _ _ _ _ ha =>
    rcases accept_connection_eq ha with ⟨_, rfl⟩
    exact le_max_right ..
  | handle _ _ _ =>
    unfold serve
    split
    next => exact fdmax_le_terminate_client ..
    next => exact le_rfl
  | poll _ => exact le_rfl
  | noAccept _ _ => exact le_rfl
  | pass _ _ _ => exact le_rfl
  | wrap _ _ => exact le_rfl

-- What `get_max_fd` finds besides `cd[0]` is at most the old maximum.
theorem terminate_client_fdmax_le (h : Inv ncons sd c s) (hmax : s.fdmax ≤ ncons + 8)
    (hc : s.cd (i + 1) = s.fdmax → c ≤ ncons + 8) :
    (terminate_client s (i + 1)).fdmax ≤ ncons + 8 := by
  rw [terminate_client_eq]
  simp only
  split
  next he =>
    refine get_max_fd_le hmax fun j hj hopen ↦ ?_
    cases j with
    | zero =>
      rw [h.cd_zero]
      exact hc he
    | succ j =>
      by_cases hji : j = i
      · rw [hji, he]
        exact hmax
      · rw [Function.update_of_ne (show j + 1 ≠ i + 1 by omega)] at hopen
        exact (h.le_fdmax j ⟨by omega, hopen⟩).trans hmax
  next => exact hmax

theorem kept_step (h : Inv ncons sd c s) (hs : Step AcceptLowest s e t) (hk : Kept ncons c s e)
    (hsd : sd ≤ ncons + 8) (hmax : s.fdmax ≤ ncons + 8) : t.fdmax ≤ ncons + 8 := by
  cases hs with
  | enter _ =>
    rw [enter_eq]
    exact max_le (h.sd_eq ▸ hsd) hmax
  | accept _ _ hn hacc ha =>
    rcases h.slot_eq hn with ⟨m, hm, _, hbefore, hfree⟩
    have hfd := accept_spare h hbefore hfree hacc
    have hspare := spare_base_le sd m
    have hncons := h.ncons_eq
    rcases accept_connection_eq ha with ⟨_, rfl⟩
    exact max_le (by omega) hmax
  | @handle ci count hpc hci hr =>
    rcases h.served hpc hci hr with ⟨i, rfl, hi⟩
    unfold serve
    split
    next hcount =>
      refine terminate_client_fdmax_le h hmax fun he ↦ hk (i + 1) count ?_ hcount
      rw [he]
    next => exact hmax
  | poll _ => exact hmax
  | noAccept _ _ => exact hmax
  | pass _ _ _ => exact hmax
  | wrap _ _ => exact hmax

/-- Closing the connection with the highest descriptor raises `fdmax` to what is in `cd[0]`. -/
theorem broken_step (h : Inv ncons sd c s) (hs : Step AcceptLowest s e t) (hk : ¬Kept ncons c s e) :
    (ncons : Int) + 8 < t.fdmax := by
  simp only [Kept, not_forall, not_le] at hk
  rcases hk with ⟨ci, count, rfl, hcount, hc⟩
  generalize he : Event.handle ci s.fdmax count = e at hs
  cases hs with
  | handle hpc hci hr =>
    simp only [Event.handle.injEq] at he
    rcases he with ⟨rfl, hmax, rfl⟩
    rcases h.served hpc hci hr with ⟨i, rfl, hi⟩
    unfold serve
    rw [if_pos hcount, terminate_client_eq]
    show _ < if s.cd (i + 1) = s.fdmax then _ else _
    rw [if_pos hmax.symm]
    have hopen : Function.update s.isopen (i + 1) false 0 = true := by
      rw [Function.update_of_ne (show 0 ≠ i + 1 by omega)]
      exact h.listener_used i hi
    have hle := @cd_le_get_max_fd s.fdmax _ s.cd s.ncons 0 (by have hlt := hi.1; omega) hopen
    rw [h.cd_zero] at hle
    omega
  | _ => cases he

end Steps

/-! ## Every run -/

section Runs

variable {ncons : Nat} {sd : Int} {isopen : Nat → Bool} {cd : Nat → Int} {ufds : Nat → PollFd}
  {s₀ s : State} {es : List Event}

theorem run_inv (h0 : main_init ncons sd isopen cd ufds {0, 1, 2} = some s₀)
    (h : Run (Step AcceptLowest) s₀ es s) : Inv ncons sd (cd 0) s :=
  h.state_invariant _ (inv_main_init h0) fun _ _ _ hi hs ↦ inv_step hi hs

theorem main_init_fdmax {fds : Finset Int} (h0 : main_init ncons sd isopen cd ufds fds = some s₀) :
    s₀.fdmax = 0 := by
  unfold main_init at h0
  split at h0
  next => cases h0
  next => cases h0; rfl

-- As long as every step meets the condition `fdmax` stays the number of an entry.
theorem guarded_fdmax_le (h0 : main_init ncons sd isopen cd ufds {0, 1, 2} = some s₀)
    (hsd : sd ≤ ncons + 8)
    (h : GuardedRun (Step AcceptLowest) (fun _ s e ↦ Kept ncons (cd 0) s e) s₀ es s) :
    s.fdmax ≤ ncons + 8 := by
  have hboth : Inv ncons sd (cd 0) s ∧ s.fdmax ≤ ncons + 8 := by
    refine h.invariant (fun _ s ↦ Inv ncons sd (cd 0) s ∧ s.fdmax ≤ ncons + 8) ?_ ?_
    · refine ⟨inv_main_init h0, ?_⟩
      rw [main_init_fdmax h0]
      omega
    · intro es s e t hi hs hk
      exact ⟨inv_step hi.1 hs, kept_step hi.1 hs hk hsd hi.2⟩
  exact hboth.2

-- After a step that does not meet it `fdmax` is too high for good.
theorem guarded_or_broken (h0 : main_init ncons sd isopen cd ufds {0, 1, 2} = some s₀)
    (h : Run (Step AcceptLowest) s₀ es s) :
    GuardedRun (Step AcceptLowest) (fun _ s e ↦ Kept ncons (cd 0) s e) s₀ es s ∨
      (ncons : Int) + 8 < s.fdmax := by
  induction h with
  | nil => exact Or.inl .nil
  | @snoc es s e t hr hs ih =>
    rcases ih with hguard | hbroken
    · by_cases hk : Kept ncons (cd 0) s e
      · exact Or.inl (.snoc hguard hs hk)
      · exact Or.inr (broken_step (run_inv h0 hr) hs hk)
    · exact Or.inr (hbroken.trans_le (fdmax_step hs))

theorem Inv.used_le_fdmax {c : Int} (h : Inv ncons sd c s) {i : Nat} (hi : i < entries ncons)
    (hused : s.isopen i = true) : (i : Int) < s.fdmax + 1 := by
  have hmax := h.fdmax_nonneg
  cases i with
  | zero => omega
  | succ i =>
    by_cases hin : i < ncons
    · have htaken : Taken s i := ⟨h.ncons_eq ▸ hin, hused⟩
      have hle := h.le_fdmax i htaken
      have hspare := lt_spare_base sd i
      rw [h.cd_eq i htaken] at hle
      omega
    · rw [h.unused (i + 1) hi (by omega)] at hused
      cases hused

/-- The entries that `poll` is asked to look at, whenever it is called, are those of `ufds`, and all of
the slots in use are among them, exactly when `sd` is the number of an entry and no connection whose
descriptor is `fdmax` has been closed while `cd[0]` is not. -/
theorem poll_length_iff (h0 : main_init ncons sd isopen cd ufds {0, 1, 2} = some s₀)
    (h : Run (Step AcceptLowest) s₀ es s) (hpc : s.pc = .calling) :
    (s.fdmax + 1 ≤ entries ncons ∧
      ∀ i < entries ncons, s.isopen i = true → (i : Int) < s.fdmax + 1) ↔
    sd ≤ ncons + 8 ∧ GuardedRun (Step AcceptLowest) (fun _ s e ↦ Kept ncons (cd 0) s e) s₀ es s := by
  have hi := run_inv h0 h
  have hentries : (entries ncons : Int) = ncons + 9 := by
    unfold entries
    omega
  rw [hentries]
  constructor
  · rintro ⟨hlen, _⟩
    have hsd := hi.calling hpc
    rcases guarded_or_broken h0 h with hguard | hbroken
    · exact ⟨by omega, hguard⟩
    · omega
  · rintro ⟨hsd, hguard⟩
    have hmax := guarded_fdmax_le h0 hsd hguard
    exact ⟨by omega, fun i hlt hused ↦ hi.used_le_fdmax hlt hused⟩

/-- The bits of a `poll` that finds `fd` readable. -/
def pollIn (fd d : Int) : Nat := if d = fd then POLLIN else 0

-- Room for one client, and `malloc` left zeros: the client comes, with descriptor 4, and goes.
theorem poll_length_iff_one_client :
    ∃ s₀ s, main_init 1 3 (fun _ ↦ true) (fun _ ↦ 0) (fun _ ↦ ⟨0, 0, 0⟩) {0, 1, 2} = some s₀ ∧
      Run (Step AcceptLowest) s₀ [.enter, .poll (pollIn 3), .accept 1 4, .pass, .wrap, .enter,
        .poll (pollIn 4), .noAccept, .handle 1 4 0, .wrap, .enter] s ∧
      s.pc = .calling ∧ s.fdmax + 1 ≤ entries 1 := by
  let s₀ : State :=
    (main_init 1 3 (fun _ ↦ true) (fun _ ↦ 0) (fun _ ↦ ⟨0, 0, 0⟩) {0, 1, 2}).get rfl
  let s₁ : State := enter s₀
  let s₂ : State := { s₁ with ufds := poll s₁.ufds (s₁.fdmax + 1) (pollIn 3), pc := .listening }
  let s₃ : State := ((accept_connection s₂ 4).get rfl).2
  let s₄ : State := { s₃ with pc := .serving 2 }
  let s₅ : State := { s₄ with pc := .top }
  let s₆ : State := enter s₅
  let s₇ : State := { s₆ with ufds := poll s₆.ufds (s₆.fdmax + 1) (pollIn 4), pc := .listening }
  let s₈ : State := { s₇ with pc := .serving 1 }
  let s₉ : State := serve s₈ 1 0
  let s₁₀ : State := { s₉ with pc := .top }
  have h0 : main_init 1 3 (fun _ ↦ true) (fun _ ↦ 0) (fun _ ↦ ⟨0, 0, 0⟩) {0, 1, 2} = some s₀ := rfl
  have haccept : Step AcceptLowest s₂ (.accept 1 4) s₃ :=
    .accept rfl (by decide) (by decide) (by decide) rfl
  have hpass : Step AcceptLowest s₃ .pass s₄ :=
    .pass (show s₃.pc = .serving 1 from rfl) (by decide) (by decide)
  have hhandle : Step AcceptLowest s₈ (.handle 1 4 0) s₉ :=
    @Step.handle _ s₈ 1 0 rfl (by decide) (by decide)
  have hwrap : Step AcceptLowest s₉ .wrap s₁₀ :=
    .wrap (show s₉.pc = .serving 2 from rfl) (by decide)
  have hkept : ∀ t e, Kept 1 0 t e := fun _ _ _ _ _ _ ↦ by decide
  have hguard : GuardedRun (Step AcceptLowest) (fun _ s e ↦ Kept 1 0 s e) s₀ [.enter, .poll (pollIn 3),
      .accept 1 4, .pass, .wrap, .enter, .poll (pollIn 4), .noAccept, .handle 1 4 0, .wrap, .enter]
      (enter s₁₀) :=
    .snoc (.snoc (.snoc (.snoc (.snoc (.snoc (.snoc (.snoc (.snoc (.snoc (.snoc .nil (.enter rfl) (hkept _ _))
      (.poll rfl) (hkept _ _)) haccept (hkept _ _)) hpass (hkept _ _))
      (.wrap (show s₄.pc = .serving 2 from rfl) (by decide)) (hkept _ _)) (.enter rfl) (hkept _ _))
      (.poll rfl) (hkept _ _)) (.noAccept rfl (by decide)) (hkept _ _)) hhandle (hkept _ _))
      hwrap (hkept _ _)) (.enter rfl) (hkept _ _)
  exact ⟨s₀, enter s₁₀, h0, hguard.run, rfl, ((poll_length_iff h0 hguard.run rfl).mpr ⟨by decide, hguard⟩).1⟩

-- Room for one client, and `malloc` left 1000 in `cd[0]`: the client comes, with descriptor 4, and goes.
theorem poll_reads_past_ufds :
    ∃ s₀ s, main_init 1 3 (fun _ ↦ false) (fun _ ↦ 1000) (fun _ ↦ ⟨0, 0, 0⟩) {0, 1, 2} = some s₀ ∧
      Run (Step AcceptLowest) s₀ [.enter, .poll (pollIn 3), .accept 1 4, .pass, .wrap, .enter,
        .poll (pollIn 4), .noAccept, .handle 1 4 0, .wrap, .enter] s ∧
      s.pc = .calling ∧ s.fdmax + 1 = 1001 ∧ ¬s.fdmax + 1 ≤ entries 1 := by
  let s₀ : State :=
    (main_init 1 3 (fun _ ↦ false) (fun _ ↦ 1000) (fun _ ↦ ⟨0, 0, 0⟩) {0, 1, 2}).get rfl
  let s₁ : State := enter s₀
  let s₂ : State := { s₁ with ufds := poll s₁.ufds (s₁.fdmax + 1) (pollIn 3), pc := .listening }
  let s₃ : State := ((accept_connection s₂ 4).get rfl).2
  let s₄ : State := { s₃ with pc := .serving 2 }
  let s₅ : State := { s₄ with pc := .top }
  let s₆ : State := enter s₅
  let s₇ : State := { s₆ with ufds := poll s₆.ufds (s₆.fdmax + 1) (pollIn 4), pc := .listening }
  let s₈ : State := { s₇ with pc := .serving 1 }
  let s₉ : State := serve s₈ 1 0
  let s₁₀ : State := { s₉ with pc := .top }
  have haccept : Step AcceptLowest s₂ (.accept 1 4) s₃ :=
    .accept rfl (by decide) (by decide) (by decide) rfl
  have hpass : Step AcceptLowest s₃ .pass s₄ :=
    .pass (show s₃.pc = .serving 1 from rfl) (by decide) (by decide)
  have hhandle : Step AcceptLowest s₈ (.handle 1 4 0) s₉ :=
    @Step.handle _ s₈ 1 0 rfl (by decide) (by decide)
  have hwrap : Step AcceptLowest s₉ .wrap s₁₀ :=
    .wrap (show s₉.pc = .serving 2 from rfl) (by decide)
  have hfirst : Run (Step AcceptLowest) s₅ [.enter, .poll (pollIn 4), .noAccept, .handle 1 4 0,
      .wrap, .enter] (enter s₁₀) :=
    .cons (.enter rfl) (.cons (.poll rfl) (.cons (.noAccept rfl (by decide))
      (.cons hhandle (.cons hwrap (.cons (.enter rfl) .nil)))))
  exact ⟨s₀, enter s₁₀, rfl, .cons (.enter rfl) (.cons (.poll rfl) (.cons haccept (.cons hpass
    (.cons (.wrap (show s₄.pc = .serving 2 from rfl) (by decide)) hfirst)))), rfl, by decide, by decide⟩

end Runs

end OK210Drivers.Server.Poll
