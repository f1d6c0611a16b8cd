import OK210Drivers.Server.Poll
import OK210Drivers.Server.SelectBookkeeping

/-!
# The poll() server does what the select() server does

Client slot `i` of the select() server is slot `i + 1` here.  Slot 0 is marked as used before the first
search, and a search that finds nothing among the slots it looks at ends at slot `ncons`, the one it
does not look at and the only one that can still be free.  `revents` keeps what an earlier call
reported; an entry that has been looked at once is looked at in every later call, because `fdmax`
never goes down, so a free entry has no bits when the next connection is accepted.  The `fd_set` of the
select() server is taken without its bound `FD_SETSIZE`.
-/

open Library

namespace OK210Drivers.Server.Poll

open Select (Pc)

/-- Every entry of `ufds` that is in use is among those that `poll` is asked to look at. -/
def Covers (t : State) : Prop :=
  ∀ i < entries t.ncons, 0 ≤ (t.ufds i).fd → (i : Int) < t.fdmax + 1

/-- A step in which the call of `poll` covers the entries in use. -/
def CoveredStep (acc : Finset Int → Int → Prop) (t : State) (d : Event) (t' : State) : Prop :=
  Step acc t d t' ∧ (t.pc = .calling → Covers t)

/-- Where both servers ask the kernel the same thing they get the same answer: the same descriptors
ready, the same descriptor of a new connection, the same result of `recv`. -/
def SameAnswer : Select.Event → Event → Prop
  | .select ready, .poll revents => ∀ fd, fd ∈ ready ↔ revents fd ≠ 0
  | .accept _ fd, .accept _ fd' => fd' = fd
  | .handle _ _ count, .handle _ _ count' => count' = count
  | _, _ => True

/-- Both servers do the same. -/
def SameAct : Select.Event → Event → Prop
  | .enter, .enter => True
  | .select ready, .poll revents => ∀ fd, fd ∈ ready ↔ revents fd ≠ 0
  | .accept ci fd, .accept ci' fd' => ci' = ci + 1 ∧ fd' = fd
  | .noAccept, .noAccept => True
  | .handle ci fd count, .handle ci' fd' count' => ci' = ci + 1 ∧ fd' = fd ∧ count' = count
  | .pass, .pass => True
  | .wrap, .wrap => True
  | _, _ => False

/-- The place of the poll() server's loop; its second loop begins with slot 1. -/
def place : Pc → Pc
  | .serving ci => .serving (ci + 1)
  | pc => pc

/-- Slot `i` of the select() server and slot `i + 1` of the poll() server. -/
structure SameSlot (s : Select.State) (t : State) (i : Nat) : Prop where
  isopen_eq : t.isopen (i + 1) = s.isopen i
  cd_eq : s.isopen i = true → t.cd (i + 1) = s.cd i
  ufd_eq : (t.ufds (i + 1)).fd = if s.isopen i then s.cd i else -1

-- What the two kinds of readiness have to do with each other at each place of the loop.
def SameReady (s : Select.State) (t : State) : Prop :=
  match s.pc with
  | .top => True
  | .calling => s.testset = s.fdset
  | .listening => s.testset ⊆ s.fdset ∧ ((t.ufds 0).revents ≠ 0 ↔ s.sd ∈ s.testset) ∧
      ∀ i < s.ncons, (t.ufds (i + 1)).revents ≠ 0 ↔ s.isopen i = true ∧ s.cd i ∈ s.testset
  | .serving _ => ∀ i < s.ncons, s.isopen i = true →
      ((t.ufds (i + 1)).revents ≠ 0 ↔ s.cd i ∈ s.testset)

structure Sim (s : Select.State) (t : State) : Prop where
  inv : Select.Inv s
  ncons_eq : t.ncons = s.ncons
  sd_eq : t.sd = s.sd
  sd_nonneg : 0 ≤ s.sd
  nopen_eq : t.nopen = s.nopen
  fds_eq : t.fds = s.fds
  listener : (t.ufds 0).fd = s.sd
  slot : ∀ i < s.ncons, SameSlot s t i
  client_nonneg : ∀ i < s.ncons, s.isopen i = true → 0 ≤ s.cd i
  unread : ∀ i ≤ s.ncons, t.fdmax < i → (t.ufds i).revents = 0
  pc_eq : t.pc = place s.pc
  ready : SameReady s t

section Steps

variable {s s' : Select.State} {t t' : State} {e : Select.Event} {d : Event} {fd : Int} {ci : Nat}

theorem sim_main_init {ncons : Nat} {sd : Int} {isopen isopen' : Nat → Bool} {cd cd' : Nat → Int}
    {ufds : Nat → PollFd} {fds : Finset Int}
    (hs : Select.main_init ncons sd isopen cd fds = some s)
    (ht : main_init ncons sd isopen' cd' ufds fds = some t) : Sim s t := by
  have hinv := Select.inv_main_init hs
  unfold main_init at ht
  split at ht
  next => cases ht
  next hsd =>
    unfold Select.main_init at hs
    split at hs
    next => cases hs
    next =>
      cases hs
      cases ht
      have hentry : ∀ i < ncons, i + 1 < entries ncons := by
        intro i hi
        unfold entries
        omega
      constructor
      case inv => exact hinv
      case ncons_eq => rfl
      case sd_eq => rfl
      case sd_nonneg => exact not_lt.mp hsd
      case nopen_eq => rfl
      case fds_eq => rfl
      case listener => rfl
      case slot =>
        intro i hi
        have hlt : i < ncons := hi
        constructor
        case isopen_eq => simp only [if_pos hlt, if_pos (hentry i hlt)]
        case cd_eq => simp only [if_pos hlt, Bool.false_eq_true, false_implies]
        case ufd_eq => simp only [if_pos hlt, if_pos (hentry i hlt), Nat.add_one_ne_zero, if_false,
          Bool.false_eq_true]
      case client_nonneg =>
        intro i hi
        have hlt : i < ncons := hi
        simp only [if_pos hlt, Bool.false_eq_true, false_implies]
      case unread =>
        intro i hi _
        have hlt : i < entries ncons := by
          have hle : i ≤ ncons := hi
          unfold entries
          omega
        simp only [if_pos hlt]
        split
        next => rfl
        next => rfl
      case pc_eq => rfl
      case ready => trivial

/-- A slot that neither server touches. -/
theorem SameSlot.congr {i : Nat} (h : SameSlot s t i) (hopen : s'.isopen i = s.isopen i)
    (hcd : s'.cd i = s.cd i) (hopen' : t'.isopen (i + 1) = t.isopen (i + 1))
    (hcd' : t'.cd (i + 1) = t.cd (i + 1)) (hufd' : t'.ufds (i + 1) = t.ufds (i + 1)) :
    SameSlot s' t' i := by
  constructor
  case isopen_eq => rw [hopen', hopen, h.isopen_eq]
  case cd_eq =>
    rw [hopen, hcd, hcd']
    exact h.cd_eq
  case ufd_eq => rw [hufd', hopen, hcd, h.ufd_eq]

/-- The first free slots of the two servers are the same slot. -/
theorem Sim.slot_eq (h : Sim s t) (hn : s.nopen < s.ncons) :
    firstFree (Function.update t.isopen 0 true) t.ncons = firstFree s.isopen s.ncons + 1 := by
  rw [h.ncons_eq]
  apply firstFree_behind (Function.update_self ..) _ (h.inv.slot_lt hn)
  intro i hi
  rw [Function.update_of_ne (Nat.add_one_ne_zero i)]
  exact (h.slot i hi).isopen_eq

theorem sim_enter (h : Sim s t) : Sim (Select.enter s) (enter t) := by
  have hinv := Select.inv_enter h.inv
  rw [Select.enter_eq] at hinv ⊢
  rw [enter_eq]
  exact { h with
    inv := hinv
    slot := fun i hi ↦ { h.slot i hi with }
    unread := fun i hi hlt ↦ h.unread i hi ((le_max_right ..).trans_lt hlt)
    pc_eq := rfl
    ready := rfl }

/-- A covered call of `poll` reports for each entry what `select` reports for its descriptor. -/
theorem sim_answer (h : Sim s t) (hpc : s.pc = .calling) (hcov : Covers t) {ready : Finset Int}
    (hr : ready ⊆ s.testset) {revents : Int → Nat} (hsame : ∀ fd, fd ∈ ready ↔ revents fd ≠ 0) :
    Sim { s with testset := ready, pc := .listening }
      { t with ufds := poll t.ufds (t.fdmax + 1) revents, pc := .listening } := by
  have hset : s.testset = s.fdset := by
    have hready := h.ready
    simpa only [SameReady, hpc] using hready
  have hused : ∀ i < entries t.ncons, 0 ≤ (t.ufds i).fd →
      (poll t.ufds (t.fdmax + 1) revents i).revents = revents (t.ufds i).fd := by
    intro i hi h0
    simp only [poll, if_pos (hcov i hi h0), if_neg (not_lt.mpr h0)]
  have hunused : ∀ i ≤ s.ncons, (t.ufds i).fd < 0 →
      (poll t.ufds (t.fdmax + 1) revents i).revents = 0 := by
    intro i hi h0
    by_cases hlt : (i : Int) < t.fdmax + 1
    · simp only [poll, if_pos hlt, if_pos h0]
    · simp only [poll, if_neg hlt]
      exact h.unread i hi (by omega)
  have hentry : ∀ i ≤ s.ncons, i < entries t.ncons := by
    intro i hi
    rw [h.ncons_eq, entries]
    omega
  exact { h with
    inv := { h.inv with }
    slot := fun i hi ↦
      { isopen_eq := (h.slot i hi).isopen_eq
        cd_eq := (h.slot i hi).cd_eq
        ufd_eq := (poll_fd ..).trans (h.slot i hi).ufd_eq }
    listener := (poll_fd ..).trans h.listener
    unread := by
      intro i hi hlt
      simp only [poll]
      rw [if_neg (by simp only at hlt; omega)]
      exact h.unread i hi hlt
    pc_eq := rfl
    ready := by
      refine ⟨hr.trans hset.subset, ?_, ?_⟩
      · have hl := h.listener
        rw [hused 0 (hentry 0 (Nat.zero_le _)) (by rw [hl]; exact h.sd_nonneg), hl]
        exact (hsame _).symm
      · intro i hi
        have hufd := (h.slot i hi).ufd_eq
        by_cases hopen : s.isopen i = true
        · rw [if_pos hopen] at hufd
          have h0 := h.client_nonneg i hi hopen
          rw [hused (i + 1) (hentry _ hi) (by rw [hufd]; exact h0), hufd]
          simp only [hopen, true_and]
          exact (hsame _).symm
        · rw [if_neg hopen] at hufd
          rw [hunused (i + 1) hi (by rw [hufd]; decide)]
          simp only [hopen, Bool.false_eq_true, false_and, ne_eq, not_true_eq_false] }

/-- A new connection is given corresponding slots, and the entry of its slot has no bits left over. -/
theorem sim_accept (h : Sim s t) (hpc : s.pc = .listening) (hn : s.nopen < s.ncons)
    (hacc : AcceptNew s.fds fd) {ci' : Nat} (hs : Select.accept_connection s fd = some (ci, s'))
    (ht : accept_connection t fd = some (ci', t')) : ci' = ci + 1 ∧ Sim s' t' := by
  have hinv := Select.inv_accept_connection h.inv hn hacc.2 hs
  have hready := h.ready
  simp only [SameReady, hpc] at hready
  rcases hready with ⟨hsub, _, hbits⟩
  rcases Select.accept_connection_eq hs with ⟨rfl, rfl⟩
  rcases accept_connection_eq ht with ⟨hci', rfl⟩
  rw [h.slot_eq hn] at hci'
  subst hci'
  have hlt := h.inv.slot_lt hn
  have hfree := firstFree_free hlt
  generalize firstFree s.isopen s.ncons = m at *
  refine ⟨rfl, ?_⟩
  have hold : ∀ i, i ≠ m → i + 1 ≠ m + 1 := by
    intro i hi
    omega
  constructor
  case inv => exact hinv
  case ncons_eq => exact h.ncons_eq
  case sd_eq => exact h.sd_eq
  case sd_nonneg => exact h.sd_nonneg
  case nopen_eq => simp only [h.nopen_eq]
  case fds_eq => simp only [h.fds_eq]
  case listener =>
    simp only [Function.update_of_ne (show 0 ≠ m + 1 by omega)]
    exact h.listener
  case slot =>
    intro i hi
    by_cases him : i = m
    · subst him
      constructor
      case isopen_eq => simp only [Function.update_self]
      case cd_eq => simp only [Function.update_self, implies_true]
      case ufd_eq => simp only [Function.update_self, if_true]
    · have hopen : Function.update (Function.update t.isopen 0 true) (m + 1) true (i + 1) =
          t.isopen (i + 1) :=
        (Function.update_of_ne (hold i him) ..).trans (Function.update_of_ne (Nat.add_one_ne_zero i) ..)
      exact (h.slot i hi).congr (Function.update_of_ne him ..) (Function.update_of_ne him ..) hopen
        (Function.update_of_ne (hold i him) ..) (Function.update_of_ne (hold i him) ..)
  case client_nonneg =>
    intro i hi
    by_cases him : i = m
    · subst him
      simp only [Function.update_self]
      exact fun _ ↦ hacc.1
    · simp only [Function.update_of_ne him]
      exact h.client_nonneg i hi
  case unread =>
    intro i hi hmax
    have hbefore := h.unread i hi ((le_max_right ..).trans_lt hmax)
    by_cases him : i = m + 1
    · subst him
      simp only [Function.update_self]
      exact hbefore
    · simp only [Function.update_of_ne him]
      exact hbefore
  case pc_eq => rfl
  case ready =>
    intro i hi hopen
    by_cases him : i = m
    · subst him
      have hnot : fd ∉ s.testset := fun hm ↦ hacc.2 (h.inv.fdset_open (hsub hm))
      have hclear := hbits i hlt
      simp only [hfree, Bool.false_eq_true, false_and, iff_false] at hclear
      simp only [Function.update_self]
      exact iff_of_false hclear hnot
    · simp only [Function.update_of_ne him, Function.update_of_ne (hold i him)] at hopen ⊢
      have hbit := hbits i hi
      rwa [and_iff_right hopen] at hbit

theorem sim_terminate_client (h : Sim s t) {i : Nat} (hpc : s.pc = .serving i) (hi : i < s.ncons)
    (hopen : s.isopen i = true) : Sim (Select.terminate_client s i) (terminate_client t (i + 1)) := by
  have hinv := Select.inv_terminate_client h.inv hi hopen
  have hready := h.ready
  simp only [SameReady, hpc] at hready
  have hcd := (h.slot i hi).cd_eq hopen
  have hmax : t.fdmax ≤ (terminate_client t (i + 1)).fdmax := by
    rw [terminate_client_eq]
    simp only
    split
    next => exact le_get_max_fd ..
    next => exact le_rfl
  rw [terminate_client_eq] at hmax ⊢
  rcases Select.terminate_client_eq s i with ⟨m, _, heq⟩
  rw [heq] at hinv ⊢
  have hold : ∀ j, j ≠ i → j + 1 ≠ i + 1 := by
    intro j hj
    omega
  constructor
  case inv => exact hinv
  case ncons_eq => exact h.ncons_eq
  case sd_eq => exact h.sd_eq
  case sd_nonneg => exact h.sd_nonneg
  case nopen_eq => simp only [h.nopen_eq]
  case fds_eq => simp only [h.fds_eq, hcd]
  case listener =>
    simp only [Function.update_of_ne (show 0 ≠ i + 1 by omega)]
    exact h.listener
  case slot =>
    intro j hj
    by_cases hji : j = i
    · subst hji
      constructor
      case isopen_eq => simp only [Function.update_self]
      case cd_eq => simp only [Function.update_self, Bool.false_eq_true, false_implies]
      case ufd_eq => simp only [Function.update_self, Bool.false_eq_true, if_false]
    · exact (h.slot j hj).congr (Function.update_of_ne hji ..) rfl
        (Function.update_of_ne (hold j hji) ..) rfl (Function.update_of_ne (hold j hji) ..)
  case client_nonneg =>
    intro j hj huj
    by_cases hji : j = i
    · subst hji
      simp only [Function.update_self] at huj
      cases huj
    · simp only [Function.update_of_ne hji] at huj
      exact h.client_nonneg j hj huj
  case unread =>
    intro j hj hlt
    have hbefore := h.unread j hj (hmax.trans_lt hlt)
    by_cases hji : j = i + 1
    · subst hji
      simp only [Function.update_self]
      exact hbefore
    · simp only [Function.update_of_ne hji]
      exact hbefore
  case pc_eq => exact h.pc_eq
  case ready =>
    simp only [SameReady, hpc]
    intro j hj huj
    by_cases hji : j = i
    · subst hji
      simp only [Function.update_self] at huj
      cases huj
    · simp only [Function.update_of_ne hji, Function.update_of_ne (hold j hji)] at huj ⊢
      exact hready j hj huj

-- The second loop moves on to the next slot.
theorem sim_next (h : Sim s t) {i : Nat} (hpc : s.pc = .serving i) :
    Sim { s with pc := .serving (i + 1) } { t with pc := .serving (i + 1 + 1) } := by
  have hready := h.ready
  simp only [SameReady, hpc] at hready
  exact { h with
    inv := { h.inv with }
    slot := fun j hj ↦ { h.slot j hj with }
    pc_eq := rfl
    ready := hready }

theorem terminate_client_pc (s : Select.State) (i : Nat) :
    (Select.terminate_client s i).pc = s.pc := by
  rcases Select.terminate_client_eq s i with ⟨m, _, heq⟩
  rw [heq]

theorem sim_serve (h : Sim s t) {i : Nat} (count : Int) (hpc : s.pc = .serving i) (hi : i < s.ncons)
    (hopen : s.isopen i = true) : Sim (Select.serve s i count) (serve t (i + 1) count) := by
  unfold Select.serve serve
  by_cases hcount : handle_client count ≠ 0
  · rw [if_pos hcount, if_pos hcount]
    exact sim_next (sim_terminate_client h hpc hi hopen) ((terminate_client_pc s i).trans hpc)
  · rw [if_neg hcount, if_neg hcount]
    exact sim_next h hpc

theorem Sim.readable_eq (h : Sim s t) {i : Nat} (hpc : s.pc = .serving i) (hi : i < s.ncons) :
    readable t (i + 1) = Select.readable s i := by
  have hready := h.ready
  simp only [SameReady, hpc] at hready
  apply Bool.eq_iff_iff.mpr
  rw [readable_iff, Select.readable_iff, (h.slot i hi).isopen_eq]
  exact and_congr_right (hready i hi)

-- Whether the first branch of the loop is taken.
theorem Sim.listening_iff (h : Sim s t) (hpc : s.pc = .listening) :
    ((t.ufds 0).revents ≠ 0 ∧ t.nopen < t.ncons) ↔ (s.sd ∈ s.testset ∧ s.nopen < s.ncons) := by
  have hready := h.ready
  simp only [SameReady, hpc] at hready
  rw [h.nopen_eq, h.ncons_eq]
  exact and_congr_left fun _ ↦ hready.2.1

/-- One step of both servers: with the same answers of the kernel they do the same. -/
theorem sim_step (h : Sim s t) (hs : Select.Step AcceptNew s e s') (ht : CoveredStep AcceptNew t d t')
    (ha : SameAnswer e d) : Sim s' t' ∧ SameAct e d := by
  rcases ht with ⟨ht, hcov⟩
  have hplace := h.pc_eq
  cases hs with
  | enter hpc =>
    rw [hpc] at hplace
    rcases ht.at_top hplace with ⟨rfl, rfl⟩
    exact ⟨sim_enter h, trivial⟩
  | select hpc hr =>
    rw [hpc] at hplace
    rcases ht.at_calling hplace with ⟨revents, rfl, rfl⟩
    exact ⟨sim_answer h hpc (hcov hplace) hr ha, ha⟩
  | accept hpc hsd hn hacc hc =>
    rw [hpc] at hplace
    rcases ht.at_listening hplace with ⟨ci', fd', rfl, _, _, _, hc'⟩ | ⟨_, hnot, _⟩
    · have hfd : fd' = _ := ha
      subst hfd
      rcases sim_accept h hpc hn hacc hc hc' with ⟨hci, hsim⟩
      exact ⟨hsim, hci, rfl⟩
    · exact absurd ((h.listening_iff hpc).mpr ⟨hsd, hn⟩) hnot
  | noAccept hpc hnot =>
    rw [hpc] at hplace
    rcases ht.at_listening hplace with ⟨_, _, _, hr, hn, _, _⟩ | ⟨rfl, _, rfl⟩
    · exact absurd ((h.listening_iff hpc).mp ⟨hr, hn⟩) hnot
    · have hready := h.ready
      simp only [SameReady, hpc] at hready
      exact ⟨{ h with
        inv := { h.inv with }
        slot := fun i hi ↦ { h.slot i hi with }
        pc_eq := rfl
        ready := fun i hi hopen ↦ (hready.2.2 i hi).trans (and_iff_right hopen) }, trivial⟩
  | handle hpc hci hr =>
    rw [hpc] at hplace
    have hopen := (Select.readable_iff.mp hr).1
    have hread := h.readable_eq hpc hci
    rcases ht.at_serving hplace with ⟨count', rfl, _, _, rfl⟩ | ⟨_, _, hno, _⟩ | ⟨_, hno, _⟩
    · have hcount : count' = _ := ha
      subst hcount
      exact ⟨sim_serve h _ hpc hci hopen, rfl, (h.slot _ hci).cd_eq hopen, rfl⟩
    · rw [hread, hr] at hno
      cases hno
    · rw [h.ncons_eq] at hno
      omega
  | pass hpc hci hr =>
    rw [hpc] at hplace
    have hread := h.readable_eq hpc hci
    rcases ht.at_serving hplace with ⟨_, _, _, hyes, _⟩ | ⟨rfl, _, _, rfl⟩ | ⟨_, hno, _⟩
    · rw [hread, hr] at hyes
      cases hyes
    · exact ⟨sim_next h hpc, trivial⟩
    · rw [h.ncons_eq] at hno
      omega
  | wrap hpc hci =>
    rw [hpc] at hplace
    rcases ht.at_serving hplace with ⟨_, _, hlt, _, _⟩ | ⟨_, hlt, _, _⟩ | ⟨rfl, _, rfl⟩
    · rw [h.ncons_eq] at hlt
      omega
    · rw [h.ncons_eq] at hlt
      omega
    · exact ⟨{ h with
        inv := { h.inv with }
        slot := fun i hi ↦ { h.slot i hi with }
        pc_eq := rfl
        ready := trivial }, trivial⟩

/-- Whatever the select() server can do next, the poll() server can do. -/
theorem sim_progress (h : Sim s t) (hs : Select.Step AcceptNew s e s')
    (hcov : s.pc = .calling → Covers t) : ∃ d t', CoveredStep AcceptNew t d t' ∧ SameAct e d := by
  have hplace := h.pc_eq
  have hcovered : t.pc = .calling → Covers t := by
    intro hpc
    apply hcov
    rw [hplace] at hpc
    generalize s.pc = pc at hpc ⊢
    cases pc with
    | calling => rfl
    | _ => cases hpc
  cases hs with
  | enter hpc =>
    rw [hpc] at hplace
    exact ⟨_, _, ⟨.enter hplace, hcovered⟩, trivial⟩
  | @select ready hpc hr =>
    rw [hpc] at hplace
    refine ⟨.poll fun fd ↦ if fd ∈ ready then 1 else 0, _, ⟨.poll hplace, hcovered⟩, fun fd ↦ ?_⟩
    by_cases hfd : fd ∈ ready
    · simp only [hfd, if_true]
      decide
    · simp only [hfd, if_false]
      decide
  | @accept fd ci s' hpc hsd hn hacc hc =>
    rw [hpc] at hplace
    rcases (h.listening_iff hpc).mpr ⟨hsd, hn⟩ with ⟨hr', hn'⟩
    have hsome : ∃ r, accept_connection t fd = some r := by
      simp only [accept_connection, accept_one, if_neg (not_lt.mpr hacc.1)]
      exact ⟨_, rfl⟩
    rcases hsome with ⟨⟨ci', t'⟩, hc'⟩
    have hsim := sim_accept h hpc hn hacc hc hc'
    exact ⟨.accept ci' fd, t', ⟨.accept hplace (reported_iff.mpr hr') hn' (h.fds_eq ▸ hacc) hc',
      hcovered⟩, hsim.1, rfl⟩
  | noAccept hpc hnot =>
    rw [hpc] at hplace
    refine ⟨_, _, ⟨.noAccept hplace ?_, hcovered⟩, trivial⟩
    rwa [reported_iff, h.listening_iff hpc]
  | @handle ci count hpc hci hr =>
    rw [hpc] at hplace
    have hopen := (Select.readable_iff.mp hr).1
    have hread := (h.readable_eq hpc hci).trans hr
    have hlt : ci + 1 < t.ncons + 1 := by
      rw [h.ncons_eq]
      omega
    exact ⟨_, _, ⟨@Step.handle _ _ _ count hplace hlt hread, hcovered⟩, rfl,
      (h.slot ci hci).cd_eq hopen, rfl⟩
  | @pass ci hpc hci hr =>
    rw [hpc] at hplace
    have hread := (h.readable_eq hpc hci).trans hr
    have hlt : ci + 1 < t.ncons + 1 := by
      rw [h.ncons_eq]
      omega
    exact ⟨_, _, ⟨.pass hplace hlt hread, hcovered⟩, trivial⟩
  | @wrap ci hpc hci =>
    rw [hpc] at hplace
    have hge : ¬ci + 1 < t.ncons + 1 := by
      rw [h.ncons_eq]
      omega
    exact ⟨_, _, ⟨.wrap hplace hge, hcovered⟩, trivial⟩

end Steps

/-! ## Every run -/

section Runs

variable {ncons : Nat} {sd : Int} {isopen isopen' : Nat → Bool} {cd cd' : Nat → Int}
  {ufds : Nat → PollFd} {fds : Finset Int} {s₀ s : Select.State} {t₀ t : State}
  {es : List Select.Event} {ds : List Event}

/-- When both servers get the same answers from the kernel, and each call of `poll` covers the entries
in use, they take the same steps: they accept and serve the same connections in the same order.  After
every step slot `i` of the one is slot `i + 1` of the other, and both are at the same place with the
same connections open; the poll() server goes along with every further step of the select() server; and
it gives a new connection a free slot from 1 to `ncons`. -/
theorem poll_simulates_select (hs₀ : Select.main_init ncons sd isopen cd fds = some s₀)
    (ht₀ : main_init ncons sd isopen' cd' ufds fds = some t₀)
    (hs : Run (Select.Step AcceptNew) s₀ es s) (ht : Run (CoveredStep AcceptNew) t₀ ds t)
    (ha : List.Forall₂ SameAnswer es ds) :
    List.Forall₂ SameAct es ds ∧ t.pc = place s.pc ∧ t.nopen = s.nopen ∧ t.fds = s.fds ∧
    (∀ i < ncons, t.isopen (i + 1) = s.isopen i ∧ (s.isopen i = true → t.cd (i + 1) = s.cd i) ∧
      (t.ufds (i + 1)).fd = if t.isopen (i + 1) then t.cd (i + 1) else -1) ∧
    (∀ e s', Select.Step AcceptNew s e s' → (s.pc = .calling → Covers t) →
      ∃ d t', CoveredStep AcceptNew t d t' ∧ SameAct e d) ∧
    (∀ ci fd t', Step AcceptNew t (.accept ci fd) t' →
      0 < ci ∧ ci ≤ ncons ∧ t.isopen ci = false ∧ t'.isopen ci = true ∧ t'.cd ci = fd ∧
        ∀ j, j ≠ ci → t'.cd j = t.cd j) := by
  have hboth : Sim s t ∧ List.Forall₂ SameAct es ds := by
    refine hs.lockstep Sim ?_ (sim_main_init hs₀ ht₀) ht ha
    exact fun _ _ _ _ _ _ h hst htt hed ↦ sim_step h hst htt hed
  rcases hboth with ⟨h, hacts⟩
  have hn : s.ncons = ncons := (Select.run_fixed hs₀ hs).1
  refine ⟨hacts, h.pc_eq, h.nopen_eq, h.fds_eq, ?_, fun e s' hst hcov ↦ sim_progress h hst hcov, ?_⟩
  · intro i hi
    have hslot := h.slot i (hn ▸ hi)
    refine ⟨hslot.isopen_eq, hslot.cd_eq, ?_⟩
    rw [hslot.ufd_eq, hslot.isopen_eq]
    by_cases hopen : s.isopen i = true
    · rw [if_pos hopen, if_pos hopen, hslot.cd_eq hopen]
    · rw [if_neg hopen, if_neg hopen]
  · intro ci fd t' hst
    cases hst with
    | accept _ _ hroom _ hc =>
      rw [h.nopen_eq, h.ncons_eq] at hroom
      have hlt := h.inv.slot_lt hroom
      rcases accept_connection_eq hc with ⟨hci, rfl⟩
      rw [h.slot_eq hroom] at hci
      subst hci
      refine ⟨Nat.succ_pos _, hn ▸ hlt, ?_, Function.update_self .., Function.update_self ..,
        fun j hj ↦ Function.update_of_ne hj ..⟩
      rw [(h.slot _ hlt).isopen_eq]
      exact firstFree_free hlt

-- With room for one client: it is in slot 0 of the one server and in slot 1 of the other.
theorem poll_simulates_select_one_client :
    ∃ s₀ t₀ s t, Select.main_init 1 3 (fun _ ↦ true) (fun _ ↦ 0) {0, 1, 2} = some s₀ ∧
      main_init 1 3 (fun _ ↦ true) (fun _ ↦ 0) (fun _ ↦ ⟨0, 0, 0⟩) {0, 1, 2} = some t₀ ∧
      Run (Select.Step AcceptNew) s₀ [.enter, .select {3}, .accept 0 4] s ∧
      Run (CoveredStep AcceptNew) t₀
        [.enter, .poll (fun fd ↦ if fd = 3 then 1 else 0), .accept 1 4] t ∧
      s.isopen 0 = true ∧ (t.ufds 1).fd = 4 ∧ t.nopen = s.nopen := by
  let s₀ : Select.State := (Select.main_init 1 3 (fun _ ↦ true) (fun _ ↦ 0) {0, 1, 2}).get rfl
  let s₁ : Select.State := { Select.enter s₀ with testset := {3}, pc := .listening }
  let s : Select.State := ((Select.accept_connection s₁ 4).get rfl).2
  let t₀ : State :=
    (main_init 1 3 (fun _ ↦ true) (fun _ ↦ 0) (fun _ ↦ ⟨0, 0, 0⟩) {0, 1, 2}).get rfl
  let t₁ : State := { enter t₀ with
    ufds := poll (enter t₀).ufds ((enter t₀).fdmax + 1) (fun fd ↦ if fd = 3 then 1 else 0)
    pc := .listening }
  let t : State := ((accept_connection t₁ 4).get rfl).2
  have hs₀ : Select.main_init 1 3 (fun _ ↦ true) (fun _ ↦ 0) {0, 1, 2} = some s₀ := rfl
  have ht₀ : main_init 1 3 (fun _ ↦ true) (fun _ ↦ 0) (fun _ ↦ ⟨0, 0, 0⟩) {0, 1, 2} = some t₀ := rfl
  have hsel : Select.Step AcceptNew (Select.enter s₀) (.select {3}) s₁ := .select rfl (by decide)
  have hsacc : Select.Step AcceptNew s₁ (.accept 0 4) s :=
    .accept rfl (by decide) (by decide) ⟨by decide, by decide⟩ rfl
  have hcov : Covers (enter t₀) := by
    have hall : ∀ i < 10, 0 ≤ ((enter t₀).ufds i).fd → (i : Int) < (enter t₀).fdmax + 1 := by decide
    exact hall
  have hpoll : CoveredStep AcceptNew (enter t₀) (.poll fun fd ↦ if fd = 3 then 1 else 0) t₁ :=
    ⟨.poll rfl, fun _ ↦ hcov⟩
  have htacc : CoveredStep AcceptNew t₁ (.accept 1 4) t :=
    ⟨.accept rfl (by decide) (by decide) ⟨by decide, by decide⟩ rfl, fun hpc ↦ by cases hpc⟩
  have hs : Run (Select.Step AcceptNew) s₀ [.enter, .select {3}, .accept 0 4] s :=
    .cons (.enter rfl) (.cons hsel (.cons hsacc .nil))
  have ht : Run (CoveredStep AcceptNew) t₀
      [.enter, .poll (fun fd ↦ if fd = 3 then 1 else 0), .accept 1 4] t :=
    .cons ⟨.enter rfl, fun hpc ↦ by cases hpc⟩ (.cons hpoll (.cons htacc .nil))
  have hready : ∀ fd : Int, fd ∈ ({3} : Finset Int) ↔ (if fd = 3 then 1 else 0) ≠ 0 := by
    intro fd
    by_cases hfd : fd = 3
    · simp [hfd]
    · simp [hfd]
  have hsim := poll_simulates_select hs₀ ht₀ hs ht (.cons trivial (.cons hready (.cons rfl .nil)))
  exact ⟨s₀, t₀, s, t, hs₀, ht₀, hs, ht, rfl, rfl, hsim.2.2.1⟩

end Runs

end OK210Drivers.Server.Poll
