import OK210Drivers.Server.SelectBookkeeping

/-!
# The descriptor numbers of the select() server

An `fd_set` has a bit for each of the numbers below `FD_SETSIZE`.  With lowest-first descriptors slot
`j` always holds the `j`-th number that was not open before the loop, so the numbers reach
`FD_SETSIZE` when the slots outnumber those below it.
-/

open Library

namespace OK210Drivers.Server.Select

/-- The descriptors that a step hands to `FD_SET`, `FD_CLR` and `FD_ISSET`. -/
def macroArgs (s : State) : Event → List Int
  | .enter => []
  | .select _ => []
  | .accept _ fd => [s.sd, fd]
  | .noAccept => [s.sd]
  | .handle ci _ count => if handle_client count ≠ 0 then [s.cd ci, s.cd ci] else [s.cd ci]
  | .pass =>
    match s.pc with
    | .serving ci => if s.isopen ci then [s.cd ci] else []
    | _ => []
  | .wrap => []

/-- From `s₀` on, after `FD_SET(sd, &fdset)`, every descriptor that the macros are given has a bit in
the sets. -/
def StaysInSet (s₀ : State) : Prop :=
  s₀.sd < FD_SETSIZE ∧ ∀ es s e t, Run (Step AcceptLowest) s₀ es s → Step AcceptLowest s e t →
    ∀ d ∈ macroArgs s e, d < FD_SETSIZE

/-- How many numbers below `FD_SETSIZE` are not in use. -/
def room (base : Finset Int) : Nat := Nat.count (fun d ↦ (d : Int) ∉ base) FD_SETSIZE

def Taken (s : State) (j : Nat) : Prop := j < s.ncons ∧ s.isopen j = true

/-- Every open connection has the descriptor of its slot's number, and nothing else was opened. -/
structure Numbered (base : Finset Int) (s : State) : Prop where
  cd_eq : ∀ j, Taken s j → s.cd j = spare base j
  fds_eq : ∀ d, d ∈ s.fds ↔ d ∈ base ∨ ∃ j, Taken s j ∧ spare base j = d

variable {base : Finset Int} {s t : State} {e : Event}

theorem acceptLowest_fresh (fds : Finset Int) (fd : Int) (h : AcceptLowest fds fd) : fd ∉ fds :=
  h.1.2

/-! ## The numbers of the slots -/

theorem main_init_empty {ncons : Nat} {sd : Int} {isopen : Nat → Bool} {cd : Nat → Int}
    {fds : Finset Int} (h0 : main_init ncons sd isopen cd fds = some s) :
    s.pc = .top ∧ s.fds = insert sd fds ∧ ∀ j, ¬Taken s j := by
  unfold main_init at h0
  split at h0
  next => cases h0
  next =>
    cases h0
    refine ⟨rfl, rfl, ?_⟩
    rintro j ⟨hj, hopen⟩
    simp only [if_pos hj] at hopen
    cases hopen

theorem numbered_main_init {ncons : Nat} {sd : Int} {isopen : Nat → Bool} {cd : Nat → Int}
    {fds : Finset Int} (h0 : main_init ncons sd isopen cd fds = some s) :
    Numbered (insert sd fds) s := by
  rcases main_init_empty h0 with ⟨_, hfds, hnone⟩
  refine ⟨fun j hj ↦ absurd hj (hnone j), fun d ↦ ?_⟩
  rw [hfds]
  exact (or_iff_left fun ⟨j, hj, _⟩ ↦ hnone j hj).symm

-- The first free slot gets the descriptor of its number.
theorem Numbered.accept_spare (h : Numbered base s) {m : Nat} (hlt : ∀ j < m, Taken s j)
    (hfree : s.isopen m = false) : AcceptLowest s.fds (spare base m) := by
  refine acceptLowest_spare h.fds_eq hlt ?_
  rintro ⟨_, hopen⟩
  rw [hfree] at hopen
  cases hopen

theorem taken_accept {m : Nat} {fd : Int} (hm : m < s.ncons)
    (ha : accept_connection s fd = some (m, t)) (j : Nat) :
    Taken t j ↔ j = m ∨ Taken s j := by
  rcases accept_connection_eq ha with ⟨_, rfl⟩
  exact used_take hm j

theorem Numbered.accept (h : Numbered base s) (hi : Inv s) (hn : s.nopen < s.ncons) {fd : Int}
    {ci : Nat} (hacc : AcceptLowest s.fds fd) (ha : accept_connection s fd = some (ci, t)) :
    Numbered base t := by
  have hci : ci = firstFree s.isopen s.ncons := (accept_connection_eq ha).1
  have hlt : ci < s.ncons := hci ▸ hi.slot_lt hn
  have hfree : s.isopen ci = false := hci ▸ firstFree_free (hi.slot_lt hn)
  have hbefore : ∀ j < ci, Taken s j := by
    intro j hj
    rw [hci] at hj
    exact ⟨hj.trans (hi.slot_lt hn), used_of_lt_firstFree hj⟩
  have hfd : fd = spare base ci := hacc.unique (h.accept_spare hbefore hfree)
  have htaken := taken_accept hlt ha
  rcases accept_connection_eq ha with ⟨_, rfl⟩
  constructor
  case cd_eq =>
    intro j hj
    rcases (htaken j).mp hj with rfl | hold
    · simp only [Function.update_self, hfd]
    · have hne : j ≠ ci := by
        rintro rfl
        cases hfree.symm.trans hold.2
      simp only [Function.update_of_ne hne]
      exact h.cd_eq j hold
  case fds_eq =>
    rw [hfd]
    exact mem_insert_spare h.fds_eq htaken

theorem Numbered.terminate (h : Numbered base s) {ci : Nat} (hci : Taken s ci) :
    Numbered base (terminate_client s ci) := by
  rcases terminate_client_eq s ci with ⟨m, _, heq⟩
  rw [heq]
  constructor
  case cd_eq => exact fun j hj ↦ h.cd_eq j ((used_drop j).mp hj).2
  case fds_eq =>
    rw [h.cd_eq ci hci]
    exact mem_erase_spare h.fds_eq used_drop

theorem Numbered.serve (h : Numbered base s) {ci : Nat} (hci : Taken s ci) (count : Int) :
    Numbered base (serve s ci count) := by
  unfold Select.serve
  split
  next =>
    have ht := h.terminate hci
    exact ⟨ht.cd_eq, ht.fds_eq⟩
  next => exact ⟨h.cd_eq, h.fds_eq⟩

theorem Numbered.step (h : Numbered base s) (hi : Inv s) (hs : Step AcceptLowest s e t) :
    Numbered base t := by
  cases hs with
  | enter _ =>
    rw [enter_eq]
    exact ⟨h.cd_eq, h.fds_eq⟩
  | accept _ _ hn hacc ha => exact h.accept hi hn hacc ha
  | handle _ hci hr => exact h.serve ⟨hci, (readable_iff.mp hr).1⟩ _
  | select _ _ => exact ⟨h.cd_eq, h.fds_eq⟩
  | noAccept _ _ => exact ⟨h.cd_eq, h.fds_eq⟩
  | pass _ _ _ => exact ⟨h.cd_eq, h.fds_eq⟩
  | wrap _ _ => exact ⟨h.cd_eq, h.fds_eq⟩

-- The macros are given `sd` and descriptors of slots.
theorem Numbered.macroArgs (h : Numbered base s) (hi : Inv s) (hs : Step AcceptLowest s e t) :
    ∀ d ∈ macroArgs s e, d = s.sd ∨ ∃ j < s.ncons, d = spare base j := by
  cases hs with
  | enter _ => nofun
  | select _ _ => nofun
  | wrap _ _ => nofun
  | noAccept _ _ => exact fun d hd ↦ Or.inl (List.mem_singleton.mp hd)
  | @accept _ ci _ _ _ hn hacc ha =>
    have ht := h.accept hi hn hacc ha
    rcases accept_connection_eq ha with ⟨rfl, rfl⟩
    have hlt := hi.slot_lt hn
    intro d hd
    rcases List.mem_cons.mp hd with rfl | hd
    · exact Or.inl rfl
    · refine Or.inr ⟨_, hlt, ?_⟩
      have hcd := ht.cd_eq _ ⟨hlt, Function.update_self ..⟩
      simp only [Function.update_self] at hcd
      exact (List.mem_singleton.mp hd).trans hcd
  | @handle ci count _ hci hr =>
    have hcd := h.cd_eq ci ⟨hci, (readable_iff.mp hr).1⟩
    intro d hd
    have hd' : d = s.cd ci := by
      rw [Select.macroArgs] at hd
      split at hd
      next => exact (List.mem_cons.mp hd).elim id List.mem_singleton.mp
      next => exact List.mem_singleton.mp hd
    exact Or.inr ⟨ci, hci, hd'.trans hcd⟩
  | @pass ci hpc hci _ =>
    intro d hd
    simp only [Select.macroArgs, hpc] at hd
    split at hd
    next hopen => exact Or.inr ⟨ci, hci, (List.mem_singleton.mp hd).trans (h.cd_eq ci ⟨hci, hopen⟩)⟩
    next => cases hd

/-! ## A run that fills the slots -/

theorem spare_lt_setsize {j : Nat} : spare base j < FD_SETSIZE ↔ j < room base :=
  spare_lt_iff base

-- The second loop over connections that are not ready ends at the head of the main loop.
theorem run_pass {i : Nat} (hpc : s.pc = .serving i)
    (hidle : ∀ j < s.ncons, readable s j = false) :
    ∃ es, Run (Step AcceptLowest) s es { s with pc := .top } := by
  induction hk : s.ncons - i generalizing s i with
  | zero =>
    have hwrap : Step AcceptLowest s .wrap { s with pc := .top } := .wrap hpc (by omega)
    exact ⟨[.wrap], .snoc .nil hwrap⟩
  | succ k ih =>
    have hlt : i < s.ncons := by omega
    have hpass : Step AcceptLowest s .pass { s with pc := .serving (i + 1) } :=
      .pass hpc hlt (hidle i hlt)
    obtain ⟨es, hes⟩ := ih (s := { s with pc := .serving (i + 1) }) rfl hidle
      (by show s.ncons - (i + 1) = k; omega)
    exact ⟨.pass :: es, Run.cons hpass hes⟩

theorem accept_connection_some {fd : Int} (h : 0 ≤ fd) :
    ∃ t, accept_connection s fd = some (firstFree s.isopen s.ncons, t) := by
  simp only [accept_connection, accept_one, if_neg (not_lt.mpr h), Option.bind_eq_bind,
    Option.bind_some]
  exact ⟨_, rfl⟩

/-- After the call of `select` at which only the listening socket was ready. -/
def onlyListener (s : State) : State :=
  { s with testset := {s.sd}, fdmax := max s.sd s.fdmax, pc := .listening }

theorem run_onlyListener (hi : Inv s) (hpc : s.pc = .top) :
    Run (Step AcceptLowest) s [.enter, .select {s.sd}] (onlyListener s) := by
  have hready : {s.sd} ⊆ (enter s).testset := by
    rw [enter_eq, hi.fdset_eq]
    exact Finset.singleton_subset_iff.mpr (Finset.mem_insert_self ..)
  have henter : Step AcceptLowest s .enter (enter s) := .enter hpc
  have hselect : Step AcceptLowest (enter s) (.select {s.sd})
      { enter s with testset := {s.sd}, pc := .listening } := .select rfl hready
  have heq : { enter s with testset := {s.sd}, pc := .listening } = onlyListener s := by
    rw [enter_eq]
    rfl
  exact Run.cons henter (.snoc .nil (heq ▸ hselect))

/-- From the head of the loop with the slots below `k` in use, a turn of the loop can come to accept a
connection for slot `k`, while nothing else is ready. -/
theorem run_accept (hi : Inv s) (hnum : Numbered base s) (hpc : s.pc = .top) {k : Nat}
    (hk : k < s.ncons) (htaken : ∀ j, Taken s j ↔ j < k) :
    ∃ es s' t, Run (Step AcceptLowest) s es s' ∧
      Step AcceptLowest s' (.accept k (spare base k)) t ∧ t.pc = .serving 0 ∧
      t.testset = {s.sd} ∧ ∀ j, Taken t j ↔ j < k + 1 := by
  have hfree : s.isopen k = false := by
    by_contra hopen
    exact absurd ((htaken k).mp ⟨hk, Bool.eq_true_of_not_eq_false hopen⟩) (lt_irrefl k)
  have hacc := hnum.accept_spare (fun j hj ↦ (htaken j).mpr hj) hfree
  have hslot : firstFree s.isopen s.ncons = k :=
    firstFree_eq hk.le (fun j hj ↦ ((htaken j).mpr hj).2) fun _ ↦ hfree
  have hused : usedSlots s.isopen s.ncons = Finset.range k := by
    ext j
    rw [mem_usedSlots, Finset.mem_range]
    exact htaken j
  have hn : s.nopen < s.ncons := by
    rw [hi.nopen_eq, hused, Finset.card_range]
    exact Int.ofNat_lt.mpr hk
  obtain ⟨t, ht⟩ := accept_connection_some (s := onlyListener s) (spare_nonneg base k)
  rw [show firstFree (onlyListener s).isopen (onlyListener s).ncons = k from hslot] at ht
  have hstep : Step AcceptLowest (onlyListener s) (.accept k (spare base k)) t :=
    .accept rfl (Finset.mem_singleton_self _) hn hacc ht
  refine ⟨_, _, t, run_onlyListener hi hpc, hstep, ?_, ?_, fun j ↦ ?_⟩
  · rcases accept_connection_eq ht with ⟨_, rfl⟩
    rfl
  · rcases accept_connection_eq ht with ⟨_, rfl⟩
    rfl
  · have hj : Taken t j ↔ j = k ∨ Taken s j := taken_accept (s := onlyListener s) hk ht j
    rw [hj, htaken, Nat.lt_succ_iff_lt_or_eq, or_comm]

section Runs

variable {ncons : Nat} {sd : Int} {isopen : Nat → Bool} {cd : Nat → Int} {fds : Finset Int}
  {s₀ : State} {es : List Event}

theorem run_numbered (h0 : main_init ncons sd isopen cd fds = some s₀)
    (h : Run (Step AcceptLowest) s₀ es s) : Numbered (insert sd fds) s :=
  (h.state_invariant (fun s ↦ Inv s ∧ Numbered (insert sd fds) s)
    ⟨inv_main_init h0, numbered_main_init h0⟩
    fun _ _ _ hi hs ↦ ⟨inv_step acceptLowest_fresh hi.1 hs, hi.2.step hi.1 hs⟩).2

/-- Clients that connect one after the other fill the slots in their order. -/
theorem run_fill (h0 : main_init ncons sd isopen cd fds = some s₀) {k : Nat} (hk : k ≤ ncons) :
    ∃ es s, Run (Step AcceptLowest) s₀ es s ∧ s.pc = .top ∧ ∀ j, Taken s j ↔ j < k := by
  induction k with
  | zero =>
    rcases main_init_empty h0 with ⟨hpc, _, hnone⟩
    exact ⟨[], s₀, .nil, hpc, fun j ↦ ⟨fun hj ↦ absurd hj (hnone j), fun hj ↦ absurd hj (by omega)⟩⟩
  | succ k ih =>
    obtain ⟨es, s, hr, hpc, htaken⟩ := ih (by omega)
    have hfixed := run_fixed h0 hr
    have hi := run_inv acceptLowest_fresh h0 hr
    obtain ⟨es', s', t, hr', hs, hpc', htest, htaken'⟩ :=
      run_accept hi (run_numbered h0 hr) hpc (by rw [hfixed.1]; omega) htaken
    have hrun := (hr.append hr').snoc hs
    have hnum := run_numbered h0 hrun
    have hidle : ∀ j < t.ncons, readable t j = false := by
      intro j hj
      by_contra hready
      have hr := readable_iff.mp (Bool.eq_true_of_not_eq_false hready)
      rw [htest, hfixed.2, Finset.mem_singleton, hnum.cd_eq j ⟨hj, hr.1⟩] at hr
      apply spare_notMem (insert sd fds) j
      rw [hr.2]
      exact Finset.mem_insert_self ..
    obtain ⟨es'', hpass⟩ := run_pass hpc' hidle
    exact ⟨_, _, hrun.append hpass, rfl, htaken'⟩

/-- More slots than numbers: the connection for the first slot without a number below `FD_SETSIZE`
gets `FD_SETSIZE` or more, and `FD_SET` is called with it. -/
theorem not_staysInSet (h0 : main_init ncons sd isopen cd fds = some s₀)
    (hroom : room (insert sd fds) < ncons) : ¬ StaysInSet s₀ := by
  intro h
  obtain ⟨es, s, hr, hpc, htaken⟩ := run_fill h0 hroom.le
  have hfixed := run_fixed h0 hr
  obtain ⟨es', s', t, hr', hs, _⟩ := run_accept (run_inv acceptLowest_fresh h0 hr)
    (run_numbered h0 hr) hpc (hfixed.1.symm ▸ hroom) htaken
  have hlt := h.2 _ _ _ _ (hr.append hr') hs _ (List.mem_cons_of_mem _ List.mem_cons_self)
  exact lt_irrefl _ (spare_lt_setsize.mp hlt)

/-- Every descriptor stays below `FD_SETSIZE`, in every run, exactly if the listening socket does and
there are no more slots than numbers below `FD_SETSIZE` that are not open before the loop. -/
theorem select_stays_in_set_iff (h0 : main_init ncons sd isopen cd fds = some s₀) :
    StaysInSet s₀ ↔ sd < FD_SETSIZE ∧ ncons ≤ room (insert sd fds) := by
  have hnil : Run (Step AcceptLowest) s₀ [] s₀ := .nil
  have hsd : s₀.sd = sd := (run_fixed h0 hnil).2
  constructor
  · intro h
    refine ⟨hsd ▸ h.1, ?_⟩
    by_contra hroom
    exact not_staysInSet h0 (by omega) h
  · rintro ⟨hlt, hroom⟩
    refine ⟨hsd.symm ▸ hlt, fun es s e t hr hs d hd ↦ ?_⟩
    have hfixed := run_fixed h0 hr
    rcases (run_numbered h0 hr).macroArgs (run_inv acceptLowest_fresh h0 hr) hs d hd with
      rfl | ⟨j, hj, rfl⟩
    · rwa [hfixed.2]
    · rw [hfixed.1] at hj
      exact spare_lt_setsize.mpr (by omega)

-- With the standard descriptors and the listening socket open.
theorem room_standard : room (insert 3 {0, 1, 2}) = 1020 := by
  have hcard : (insert 3 {0, 1, 2} : Finset Int).card = 4 := by decide
  have hlow : ∀ d : Nat, d < 4 → (d : Int) ∈ (insert 3 {0, 1, 2} : Finset Int) := by decide
  have hle := spare_le (insert 3 {0, 1, 2}) 1019
  have hge := le_spare hlow 1020
  rw [hcard] at hle
  have hin : 1019 < room (insert 3 {0, 1, 2}) := spare_lt_setsize.mp (by show _ < (1024 : Int); omega)
  have hout : ¬ 1020 < room (insert 3 {0, 1, 2}) := by
    intro h
    have hlt : _ < (1024 : Int) := spare_lt_setsize.mpr h
    omega
  omega

theorem select_stays_in_set_1020 :
    ∃ s₀, main_init 1020 3 (fun _ ↦ true) (fun _ ↦ 0) {0, 1, 2} = some s₀ ∧ StaysInSet s₀ := by
  have h0 : ∃ s₀, main_init 1020 3 (fun _ ↦ true) (fun _ ↦ 0) {0, 1, 2} = some s₀ := ⟨_, rfl⟩
  obtain ⟨s₀, h0⟩ := h0
  exact ⟨s₀, h0, (select_stays_in_set_iff h0).mpr ⟨by decide, room_standard.ge⟩⟩

/-- The start-up check allows too much: the four descriptors that are open before the loop take four
of the numbers. -/
theorem select_leaves_set :
    ∃ s₀, main_init FD_SETSIZE 3 (fun _ ↦ true) (fun _ ↦ 0) {0, 1, 2} = some s₀ ∧
      ¬ StaysInSet s₀ := by
  have h0 : ∃ s₀, main_init FD_SETSIZE 3 (fun _ ↦ true) (fun _ ↦ 0) {0, 1, 2} = some s₀ := ⟨_, rfl⟩
  obtain ⟨s₀, h0⟩ := h0
  exact ⟨s₀, h0, not_staysInSet h0 (by rw [room_standard]; decide)⟩

end Runs

end OK210Drivers.Server.Select
