import OK210Drivers.Library.Runs
import OK210Drivers.Server.Select

/-!
# The bookkeeping of the select() server

The tables `isopen` and `cd`, the counter `nopen`, the set `fdset` and the bound `fdmax` are updated in
two functions and agree at every place of the main loop.  The bits of `testset` are those of the last
`select`; a connection accepted since then has none of them, because its descriptor was not open when
`select` was called.
-/

open Library

namespace OK210Drivers.Server.Select

/-- The descriptors of the open connections. -/
def State.clients (s : State) : Finset Int := held s.isopen s.cd s.ncons

structure Inv (s : State) : Prop where
  nopen_eq : s.nopen = (usedSlots s.isopen s.ncons).card
  distinct : Distinct s.isopen s.cd s.ncons
  sd_free : s.sd ∉ s.clients
  fdset_eq : s.fdset = insert s.sd s.clients
  fdset_open : s.fdset ⊆ s.fds
  le_fdmax : ∀ fd ∈ s.clients, fd ≤ s.fdmax

/-- Whether an event begins a new turn of the main loop or a new call of `select`. -/
def Event.starts : Event → Bool
  | .enter => true
  | .select _ => true
  | _ => false

/-- The last `select` of a history reported `ready`, and nothing accepted since then has a descriptor
in it. -/
def SinceSelect (es : List Event) (ready : Finset Int) : Prop :=
  ∃ pre post, es = pre ++ .select ready :: post ∧ (∀ e ∈ post, e.starts = false) ∧
    ∀ ci fd, .accept ci fd ∈ post → fd ∉ ready

-- What `testset` is at each place of the loop.
def AtPlace (es : List Event) (s : State) : Prop :=
  match s.pc with
  | .top => True
  | .calling => s.sd ≤ s.fdmax ∧ s.testset = s.fdset
  | .listening => s.testset ⊆ s.fdset ∧ SinceSelect es s.testset
  | .serving _ => SinceSelect es s.testset

variable {acc : Finset Int → Int → Prop} {s t : State} {e : Event}

theorem Inv.nopen_le (h : Inv s) : s.nopen ≤ s.ncons := by
  have hcard := usedSlots_card_le s.isopen s.ncons
  rw [h.nopen_eq]
  omega

/-- While `nopen` says that there is room the search of `accept_one` finds a free slot. -/
theorem Inv.slot_lt (h : Inv s) (hn : s.nopen < s.ncons) :
    firstFree s.isopen s.ncons < s.ncons := by
  have hcard := h.nopen_eq
  exact firstFree_lt (by omega)

theorem inv_main_init {ncons : Nat} {sd : Int} {isopen : Nat → Bool} {cd : Nat → Int}
    {fds : Finset Int} (h0 : main_init ncons sd isopen cd fds = some s) : Inv s := by
  unfold main_init at h0
  split at h0
  next => cases h0
  next =>
    cases h0
    have hfree : ∀ i < ncons, (fun ci ↦ if ci < ncons then false else isopen ci) i = false := by
      intro i hi
      simp only [if_pos hi]
    have hnone : held (fun ci ↦ if ci < ncons then false else isopen ci) cd ncons = ∅ :=
      held_empty hfree
    constructor
    case nopen_eq =>
      show (0 : Int) = ↑(usedSlots _ ncons).card
      rw [usedSlots_empty hfree]
      rfl
    case distinct => exact Distinct.empty hfree
    case sd_free => simp only [State.clients, hnone, Finset.notMem_empty, not_false_eq_true]
    case fdset_eq => simp only [State.clients, hnone, insert_empty_eq]
    case fdset_open => simp
    case le_fdmax => simp only [State.clients, hnone, Finset.notMem_empty, false_implies, implies_true]

theorem inv_enter (h : Inv s) : Inv (enter s) := by
  rw [enter_eq]
  exact { h with le_fdmax := fun fd hfd ↦ (h.le_fdmax fd hfd).trans (le_max_right ..) }

/-- A new connection takes a free slot and a descriptor that nothing in the tables holds. -/
theorem inv_accept_connection (h : Inv s) (hn : s.nopen < s.ncons) {fd : Int} {ci : Nat}
    (hfd : fd ∉ s.fds) (ha : accept_connection s fd = some (ci, t)) : Inv t := by
  rcases accept_connection_eq ha with ⟨rfl, rfl⟩
  have hci := h.slot_lt hn
  have hfree := firstFree_free hci
  have hset : fd ∉ s.fdset := fun hm ↦ hfd (h.fdset_open hm)
  rw [h.fdset_eq, Finset.mem_insert, not_or] at hset
  have hclients : held (Function.update s.isopen (firstFree s.isopen s.ncons) true)
      (Function.update s.cd (firstFree s.isopen s.ncons) fd) s.ncons = insert fd s.clients :=
    held_take hci hfree
  constructor
  case nopen_eq =>
    have hcard := usedSlots_take_card hci hfree
    have hnopen := h.nopen_eq
    simp only
    omega
  case distinct => exact h.distinct.take hci hset.2
  case sd_free =>
    simp only [State.clients, hclients, Finset.mem_insert, not_or]
    exact ⟨Ne.symm hset.1, h.sd_free⟩
  case fdset_eq =>
    simp only [State.clients, hclients, h.fdset_eq]
    exact Finset.insert_comm ..
  case fdset_open => exact Finset.insert_subset_insert fd h.fdset_open
  case le_fdmax =>
    simp only [State.clients, hclients, Finset.mem_insert]
    intro x hx
    rcases hx with rfl | hx
    · exact le_max_left ..
    · exact (h.le_fdmax x hx).trans (le_max_right ..)

theorem inv_terminate_client (h : Inv s) {ci : Nat} (hci : ci < s.ncons)
    (hopen : s.isopen ci = true) : Inv (terminate_client s ci) := by
  rcases terminate_client_eq s ci with ⟨m, hm, heq⟩
  have hclients : held (Function.update s.isopen ci false) s.cd s.ncons =
      s.clients.erase (s.cd ci) := h.distinct.held_drop hci hopen
  have hne : s.sd ≠ s.cd ci := by
    intro he
    exact h.sd_free (he ▸ val_mem_held hci hopen)
  rw [heq]
  constructor
  case nopen_eq =>
    have hcard := usedSlots_drop_card hci hopen
    have hnopen := h.nopen_eq
    simp only
    omega
  case distinct => exact h.distinct.drop
  case sd_free =>
    simp only [State.clients, hclients]
    exact fun hm ↦ h.sd_free (Finset.mem_of_mem_erase hm)
  case fdset_eq =>
    simp only [State.clients, hclients, h.fdset_eq]
    exact Finset.erase_insert_of_ne hne
  case fdset_open => exact Finset.erase_subset_erase _ h.fdset_open
  case le_fdmax =>
    simp only [State.clients, hclients]
    exact fun fd hfd ↦ (h.le_fdmax fd (Finset.mem_of_mem_erase hfd)).trans hm

theorem inv_serve (h : Inv s) {ci : Nat} (count : Int) (hci : ci < s.ncons)
    (hopen : s.isopen ci = true) : Inv (serve s ci count) := by
  unfold serve
  split
  next => exact { inv_terminate_client h hci hopen with }
  next => exact { h with }

theorem readable_iff {ci : Nat} : readable s ci = true ↔ s.isopen ci = true ∧ s.cd ci ∈ s.testset := by
  simp only [readable, Bool.and_eq_true, decide_eq_true_eq]

/-- Every step of the main loop keeps the invariant, whatever descriptors `accept` chooses among those
that are not open. -/
theorem inv_step (hacc : ∀ fds fd, acc fds fd → fd ∉ fds) (h : Inv s) (hs : Step acc s e t) :
    Inv t := by
  cases hs with
  | enter _ => exact inv_enter h
  | select _ _ => exact { h with }
  | accept _ _ hn ha hc => exact inv_accept_connection h hn (hacc _ _ ha) hc
  | noAccept _ _ => exact { h with }
  | handle _ hci hr => exact inv_serve h _ hci (readable_iff.mp hr).1
  | pass _ _ _ => exact { h with }
  | wrap _ _ => exact { h with }

@[simp] theorem serve_pc (s : State) (ci : Nat) (count : Int) :
    (serve s ci count).pc = .serving (ci + 1) := rfl

@[simp] theorem serve_testset (s : State) (ci : Nat) (count : Int) :
    (serve s ci count).testset = s.testset := by
  unfold serve
  split
  next =>
    rcases terminate_client_eq s ci with ⟨m, _, heq⟩
    simp only [heq]
  next => rfl

theorem SinceSelect.snoc {es : List Event} {ready : Finset Int} (h : SinceSelect es ready)
    (he : e.starts = false) (hacc : ∀ ci fd, e = .accept ci fd → fd ∉ ready) :
    SinceSelect (es ++ [e]) ready := by
  rcases h with ⟨pre, post, rfl, hpost, hnew⟩
  refine ⟨pre, post ++ [e], by simp, ?_, ?_⟩
  · intro f hf
    rcases List.mem_append.mp hf with hf | hf
    · exact hpost f hf
    · rw [List.mem_singleton.mp hf, he]
  · intro ci fd hf
    rcases List.mem_append.mp hf with hf | hf
    · exact hnew ci fd hf
    · exact hacc ci fd (List.mem_singleton.mp hf).symm

-- The descriptor `accept` returns is not in `fdset`, so it cannot be in what `select` left of it.
theorem atPlace_step (hacc : ∀ fds fd, acc fds fd → fd ∉ fds) (h : Inv s) {es : List Event}
    (hp : AtPlace es s) (hs : Step acc s e t) : AtPlace (es ++ [e]) t := by
  cases hs with
  | enter _ =>
    rw [enter_eq]
    exact ⟨le_max_left .., rfl⟩
  | select hpc hr =>
    simp only [AtPlace, hpc] at hp
    exact ⟨hr.trans hp.2.subset, es, [], rfl, by simp, by simp⟩
  | accept hpc _ _ ha hc =>
    simp only [AtPlace, hpc] at hp
    rcases accept_connection_eq hc with ⟨rfl, rfl⟩
    refine hp.2.snoc rfl fun ci fd he hm ↦ ?_
    cases he
    exact hacc _ _ ha (h.fdset_open (hp.1 hm))
  | noAccept hpc _ =>
    simp only [AtPlace, hpc] at hp
    exact hp.2.snoc rfl fun _ _ he ↦ by cases he
  | handle hpc _ _ =>
    simp only [AtPlace, hpc, serve_pc, serve_testset] at hp ⊢
    exact hp.snoc rfl fun _ _ he ↦ by cases he
  | pass hpc _ _ =>
    simp only [AtPlace, hpc] at hp ⊢
    exact hp.snoc rfl fun _ _ he ↦ by cases he
  | wrap _ _ => trivial

/-! ## Every run -/

section Runs

variable {ncons : Nat} {sd : Int} {isopen : Nat → Bool} {cd : Nat → Int} {fds : Finset Int}
  {s₀ : State} {es : List Event}

theorem terminate_client_fixed (s : State) (ci : Nat) :
    (terminate_client s ci).ncons = s.ncons ∧ (terminate_client s ci).sd = s.sd := by
  rcases terminate_client_eq s ci with ⟨m, _, heq⟩
  rw [heq]
  exact ⟨rfl, rfl⟩

-- `ncons` and `sd` are assigned before the loop only.
theorem step_fixed (hs : Step acc s e t) : t.ncons = s.ncons ∧ t.sd = s.sd := by
  cases hs with
  | enter _ => rw [enter_eq]; exact ⟨rfl, rfl⟩
  | accept _ _ _ _ hc =>
    rcases accept_connection_eq hc with ⟨_, rfl⟩
    exact ⟨rfl, rfl⟩
  | handle _ _ _ =>
    unfold serve
    split
    next => exact terminate_client_fixed ..
    next => exact ⟨rfl, rfl⟩
  | select _ _ => exact ⟨rfl, rfl⟩
  | noAccept _ _ => exact ⟨rfl, rfl⟩
  | pass _ _ _ => exact ⟨rfl, rfl⟩
  | wrap _ _ => exact ⟨rfl, rfl⟩

theorem run_fixed (h0 : main_init ncons sd isopen cd fds = some s₀) (h : Run (Step acc) s₀ es s) :
    s.ncons = ncons ∧ s.sd = sd := by
  refine h.state_invariant (fun s ↦ s.ncons = ncons ∧ s.sd = sd) ?_ ?_
  · unfold main_init at h0
    split at h0
    next => cases h0
    next => cases h0; exact ⟨rfl, rfl⟩
  · intro s e t hi hs
    have ht := step_fixed hs
    exact ⟨ht.1.trans hi.1, ht.2.trans hi.2⟩

theorem run_inv (hacc : ∀ fds fd, acc fds fd → fd ∉ fds)
    (h0 : main_init ncons sd isopen cd fds = some s₀) (h : Run (Step acc) s₀ es s) : Inv s :=
  h.state_invariant Inv (inv_main_init h0) fun _ _ _ hi hs ↦ inv_step hacc hi hs

theorem run_atPlace (hacc : ∀ fds fd, acc fds fd → fd ∉ fds)
    (h0 : main_init ncons sd isopen cd fds = some s₀) (h : Run (Step acc) s₀ es s) :
    AtPlace es s := by
  refine h.invariant AtPlace ?_ fun es s e t hr hp hs ↦ atPlace_step hacc (run_inv hacc h0 hr) hp hs
  unfold main_init at h0
  split at h0
  next => cases h0
  next => cases h0; trivial

theorem acceptBelow_fresh (fds : Finset Int) (fd : Int) (h : AcceptBelow fds fd) : fd ∉ fds := h.2.2

/-- In every state that a run of the server reaches: `nopen` counts the open slots, of which there are
at most `ncons`; their descriptors differ from each other and from `sd` and are, with `sd`, what
`fdset` holds and `select` is asked to look at; a connection goes to a free slot below `ncons` and
leaves the other slots' descriptors alone; and a client that is served was reported by the `select`
call of the same turn of the loop, not accepted after it. -/
theorem select_bookkeeping (h0 : main_init ncons sd isopen cd fds = some s₀)
    (h : Run (Step AcceptBelow) s₀ es s) :
    s.nopen = (usedSlots s.isopen ncons).card ∧ s.nopen ≤ ncons ∧
    (∀ i j, i < ncons → s.isopen i = true → j < ncons → s.isopen j = true → s.cd i = s.cd j → i = j) ∧
    (∀ i, i < ncons → s.isopen i = true → s.cd i ≠ sd) ∧
    (∀ fd, fd ∈ s.fdset ↔ fd = sd ∨ ∃ i, i < ncons ∧ s.isopen i = true ∧ s.cd i = fd) ∧
    (s.pc = .calling → s.testset = s.fdset ∧ ∀ fd ∈ s.fdset, fd ≤ s.fdmax) ∧
    (∀ ci fd t, Step AcceptBelow s (.accept ci fd) t →
      ci < ncons ∧ s.isopen ci = false ∧ t.cd ci = fd ∧ ∀ j, j ≠ ci → t.cd j = s.cd j) ∧
    (∀ ci fd count t, Step AcceptBelow s (.handle ci fd count) t →
      ∃ pre ready post, es = pre ++ .select ready :: post ∧ (∀ e ∈ post, e.starts = false) ∧
        fd ∈ ready ∧ ∀ cj, .accept cj fd ∉ post) := by
  have hi := run_inv acceptBelow_fresh h0 h
  have hp := run_atPlace acceptBelow_fresh h0 h
  rcases run_fixed h0 h with ⟨rfl, rfl⟩
  refine ⟨hi.nopen_eq, hi.nopen_le, fun i j hi' hui hj huj ↦ hi.distinct.eq hi' hui hj huj, ?_, ?_,
    ?_, ?_, ?_⟩
  · intro i hlt hopen he
    exact hi.sd_free (he ▸ val_mem_held hlt hopen)
  · intro fd
    rw [hi.fdset_eq, Finset.mem_insert, State.clients, mem_held]
  · intro hpc
    simp only [AtPlace, hpc] at hp
    refine ⟨hp.2, fun fd hfd ↦ ?_⟩
    rw [hi.fdset_eq, Finset.mem_insert] at hfd
    rcases hfd with rfl | hfd
    · exact hp.1
    · exact hi.le_fdmax fd hfd
  · intro ci fd t hs
    cases hs with
    | accept _ _ hn _ hc =>
      rcases accept_connection_eq hc with ⟨rfl, rfl⟩
      have hlt := hi.slot_lt hn
      exact ⟨hlt, firstFree_free hlt, Function.update_self .., fun j hj ↦ Function.update_of_ne hj ..⟩
  · intro ci fd count t hs
    cases hs with
    | handle hpc _ hr =>
      simp only [AtPlace, hpc] at hp
      rcases hp with ⟨pre, post, hes, hpost, hnew⟩
      have hready := (readable_iff.mp hr).2
      exact ⟨pre, s.testset, post, hes, hpost, hready, fun cj hm ↦ hnew cj _ hm hready⟩

-- The listening socket 3 is ready and the first client gets descriptor 4.
theorem select_bookkeeping_first_client :
    ∃ s₀ s, main_init 2 3 (fun _ ↦ true) (fun _ ↦ 4) {0, 1, 2} = some s₀ ∧
      Run (Step AcceptBelow) s₀ [.enter, .select {3}, .accept 0 4] s ∧ s.fdset = {3, 4} ∧
      s.nopen = (usedSlots s.isopen 2).card := by
  let s₀ : State := (main_init 2 3 (fun _ ↦ true) (fun _ ↦ 4) {0, 1, 2}).get rfl
  let s₁ : State := { enter s₀ with testset := {3}, pc := .listening }
  let t : State := ((accept_connection s₁ 4).get rfl).2
  have h0 : main_init 2 3 (fun _ ↦ true) (fun _ ↦ 4) {0, 1, 2} = some s₀ := rfl
  have hsel : Step AcceptBelow (enter s₀) (.select {3}) s₁ := .select rfl (by decide)
  have hacc : Step AcceptBelow s₁ (.accept 0 4) t :=
    .accept rfl (by decide) (by decide) ⟨by decide, by decide, by decide⟩ rfl
  have hrun := Run.cons (.enter rfl) (.cons hsel (.cons hacc .nil))
  exact ⟨s₀, t, h0, hrun, by decide, (select_bookkeeping h0 hrun).1⟩

end Runs

end OK210Drivers.Server.Select
