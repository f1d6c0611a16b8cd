import OK210Drivers.Server.EpollClose

/-!
# Which descriptors a batch of events is acted on for

`ep_event` is the batch the loop goes through and also where `accept_it` builds the registration of
slot `ci`.  When the listening socket is reported first and the new client gets slot 1, the second
event of the batch is lost and the new client is served instead, whether it has sent anything or not.
-/

open Library

namespace OK210Drivers.Server.Epoll

-- The branch of the loop that an event goes to, and the descriptor of a client.
inductive Act
  | listener
  | client (fd : Int)
  deriving DecidableEq

def Event.act : Event → Option Act
  | .accept _ _ _ => some .listener
  | .full => some .listener
  | .serve fd => some (.client fd)
  | .close fd _ _ => some (.client fd)
  | .wait _ => none
  | .wrap => none

def acts (es : List Event) : List Act := es.filterMap Event.act

-- Whether a step returns to `epoll_wait`'s answer.
def Event.isWait : Event → Bool
  | .wait _ => true
  | _ => false

/-- What is due for a reported descriptor. -/
def State.due (s : State) (fd : Int) : Act := if fd = s.sd then .listener else .client fd

/-- The listening socket is reported before a client, there is room, and the first free slot is 1. -/
def Overwrites (s : State) (ready : List Int) : Prop :=
  ∃ fd, ready = [s.sd, fd] ∧ s.nopen < s.ncons ∧ s.isopen 0 = true ∧ s.isopen 1 = false

theorem due_inj {s : State} {x y : Int} (h : s.due x = s.due y) : x = y := by
  unfold State.due at h
  split at h <;> split at h <;> simp_all

section Turns

variable {base : Finset Int} {lst : Addr} {own : Nat → Option Addr} {s t : State} {i j n : Nat}
  {e : Event} {es : List Event}

theorem firstFree_eq_one_iff (h : Inv base lst own s) (hn : s.nopen < s.ncons) :
    firstFree s.isopen s.ncons = 1 ↔ s.isopen 0 = true ∧ s.isopen 1 = false := by
  have hfree := firstFree_free (h.slot_lt hn)
  constructor
  · intro he
    rw [he] at hfree
    exact ⟨used_of_lt_firstFree (n := s.ncons) (by omega), hfree⟩
  · rintro ⟨h0, h1⟩
    by_contra hne
    rcases Nat.lt_or_gt_of_ne hne with hlt | hgt
    · rw [show firstFree s.isopen s.ncons = 0 by omega, h0] at hfree
      cases hfree
    · rw [used_of_lt_firstFree hgt] at h1
      cases h1

/-- Every registered descriptor is open. -/
theorem Inv.registered_open (h : Inv base lst own s) {fd : Int} {a : Addr}
    (hr : s.interest fd = some a) : fd ∈ s.fds := by
  rcases h.registered fd a hr with ⟨hheap, rfl | ⟨ci, ho⟩⟩
  · rw [h.listener, Option.some.injEq] at hheap
    rw [h.fds_eq, ← hheap]
    exact Finset.mem_union_left _ h.sd_base
  · rcases h.owned ci a ho with ⟨hci, hopen⟩
    rw [h.owner_heap ho, Option.some.injEq] at hheap
    rw [h.fds_eq, ← hheap]
    exact Finset.mem_union_right _ (val_mem_held hci hopen)

theorem event_fd_epoll_wait (h : Inv base lst own s) {ready : List Int} (hr : Reports s ready)
    (hj : j < ready.length) : event_fd (epoll_wait s ready) j = some (ready.get ⟨j, hj⟩) := by
  rcases Option.isSome_iff_exists.mp (hr.2.2 _ (List.get_mem ready ⟨j, hj⟩)) with ⟨a, ha⟩
  have hev : (epoll_wait s ready).ep_event j = some a := by simp only [epoll_wait, dif_pos hj, ha]
  rw [event_fd, hev]
  exact (h.registered _ a ha).1

/-- A turn of the loop acts on the descriptor that the event leads to. -/
theorem act_step (hpc : s.pc = .dispatching i n) (hi : i < n) (hs : Step s e t) :
    t.pc = .dispatching (i + 1) n ∧ t.sd = s.sd ∧
      ∃ fd, event_fd s i = some fd ∧ e.act = some (s.due fd) := by
  have hsd := (step_fixed hs).2
  cases hs with
  | wait hpc' _ =>
    cases hpc.symm.trans hpc'
  | wrap hpc' hi' =>
    cases hpc.symm.trans hpc'
    exact absurd hi hi'
  | accept hpc' _ he _ _ _ _ =>
    cases hpc.symm.trans hpc'
    exact ⟨rfl, hsd, s.sd, he, by rw [State.due, if_pos rfl]; rfl⟩
  | full hpc' _ he _ =>
    cases hpc.symm.trans hpc'
    exact ⟨rfl, hsd, s.sd, he, by rw [State.due, if_pos rfl]; rfl⟩
  | serve hpc' _ he hne _ =>
    cases hpc.symm.trans hpc'
    exact ⟨rfl, hsd, _, he, by rw [State.due, if_neg hne]; rfl⟩
  | close hpc' _ he hne _ _ =>
    cases hpc.symm.trans hpc'
    exact ⟨rfl, hsd, _, he, by rw [State.due, if_neg hne]; rfl⟩

-- Which events of the batch a turn leaves as they were.
theorem event_fd_step (h : Inv base lst own s) (hpc : s.pc = .dispatching i n) (hij : i < j) (hj : j < n)
    (hs : Step s e t) :
    (event_fd t j = event_fd s j ∧ ∀ fd tptr, e ≠ .accept j fd tptr) ∨
      ∃ fd tptr, e = .accept j fd tptr ∧ event_fd t j = some fd ∧ fd ∉ s.fds := by
  rcases h.event_fd hpc (Nat.le_of_lt hij) hj with ⟨b, v, hev, hl, hheap, _⟩
  cases hs with
  | wait hpc' _ =>
    cases hpc.symm.trans hpc'
  | wrap hpc' hi' =>
    cases hpc.symm.trans hpc'
    omega
  | full _ _ _ _ => exact Or.inl ⟨rfl, fun _ _ he ↦ by cases he⟩
  | serve _ _ _ _ _ => exact Or.inl ⟨rfl, fun _ _ he ↦ by cases he⟩
  | accept _ _ _ _ hacc hm ha =>
    rcases accept_it_eq ha with ⟨rfl, rfl⟩
    by_cases hjm : j = firstFree s.isopen s.ncons
    · subst hjm
      refine Or.inr ⟨_, _, rfl, ?_, hacc.1.2⟩
      simp only [event_fd, Function.update_self, Heap.read_some, Heap.alloc_same]
    · refine Or.inl ⟨?_, fun _ _ he ↦ hjm (by cases he; rfl)⟩
      have hne : ∀ c, s.heap c = none → b ≠ c := by
        rintro c hc rfl
        rw [hc] at hheap
        cases hheap
      simp only [event_fd, Function.update_of_ne hjm, hev, Heap.read_some]
      exact Heap.alloc_of_ne _ _ (hne _ hm)
  | close hpc' hi he hsd _ ht =>
    refine Or.inl ⟨?_, fun _ _ he ↦ by cases he⟩
    cases hpc.symm.trans hpc'
    rcases h.client_event hpc hi he hsd with ⟨ci, a, hci, hopen, rfl, _, heva, hheapa⟩
    rw [terminate_client_eq (h.find_client hci hopen) heva hheapa] at ht
    cases ht
    have hne : b ≠ a := by
      rintro rfl
      have hji := (h.pending i n hpc).inj i j (Nat.le_refl i) hi (Nat.le_of_lt hij) hj
        (heva.trans hev.symm)
      omega
    simp only [event_fd, hev, Heap.read_some]
    exact Function.update_of_ne hne ..

-- With room for a client, an event for the listening socket is an `accept_it` into the first free slot.
theorem accept_step (hpc : s.pc = .dispatching i n) (hi : i < n) (he : event_fd s i = some s.sd)
    (hn : s.nopen < s.ncons) (hs : Step s e t) :
    ∃ fd tptr, e = .accept (firstFree s.isopen s.ncons) fd tptr := by
  cases hs with
  | wait hpc' _ =>
    cases hpc.symm.trans hpc'
  | wrap hpc' hi' =>
    cases hpc.symm.trans hpc'
    exact absurd hi hi'
  | accept _ _ _ _ _ _ ha =>
    rcases accept_it_eq ha with ⟨rfl, _⟩
    exact ⟨_, _, rfl⟩
  | full _ _ _ hn' => exact absurd hn hn'
  | serve hpc' _ he' hne _ =>
    cases hpc.symm.trans hpc'
    rw [he, Option.some.injEq] at he'
    exact absurd he'.symm hne
  | close hpc' _ he' hne _ _ =>
    cases hpc.symm.trans hpc'
    rw [he, Option.some.injEq] at he'
    exact absurd he'.symm hne

theorem accept_inv (hpc : s.pc = .dispatching i n) {ci : Nat} {fd : Int} {tptr : Addr}
    (hs : Step s (.accept ci fd tptr) t) :
    event_fd s i = some s.sd ∧ s.nopen < s.ncons ∧ ci = firstFree s.isopen s.ncons := by
  cases hs with
  | accept hpc' _ he hn _ _ ha =>
    cases hpc.symm.trans hpc'
    exact ⟨he, hn, (accept_it_eq ha).1⟩

/-! ## The end of a batch -/

theorem step_waiting (hpc : s.pc = .waiting) (hs : Step s e t) : e.isWait = true := by
  cases hs with
  | wait _ _ => rfl
  | wrap hpc' _ => cases hpc.symm.trans hpc'
  | accept hpc' _ _ _ _ _ _ => cases hpc.symm.trans hpc'
  | full hpc' _ _ _ => cases hpc.symm.trans hpc'
  | serve hpc' _ _ _ _ => cases hpc.symm.trans hpc'
  | close hpc' _ _ _ _ _ => cases hpc.symm.trans hpc'

theorem step_done (hpc : s.pc = .dispatching n n) (hs : Step s e t) : e = .wrap ∧ t.pc = .waiting := by
  have hnn : ¬n < n := Nat.lt_irrefl n
  cases hs with
  | wait hpc' _ => cases hpc.symm.trans hpc'
  | wrap _ _ => exact ⟨rfl, rfl⟩
  | accept hpc' hi _ _ _ _ _ => cases hpc.symm.trans hpc'; exact absurd hi hnn
  | full hpc' hi _ _ => cases hpc.symm.trans hpc'; exact absurd hi hnn
  | serve hpc' hi _ _ _ => cases hpc.symm.trans hpc'; exact absurd hi hnn
  | close hpc' hi _ _ _ _ => cases hpc.symm.trans hpc'; exact absurd hi hnn

-- After the last event the loop can only return to `epoll_wait`.
theorem acts_none (hpc : s.pc = .dispatching n n) (hr : Run Step s es t)
    (hw : ∀ e ∈ es, e.isWait = false) : acts es = [] := by
  cases es with
  | nil => rfl
  | cons e es =>
    rcases hr.cons_inv with ⟨s', hs, hr'⟩
    rcases step_done hpc hs with ⟨rfl, hpc'⟩
    cases es with
    | nil => rfl
    | cons e' es =>
      rcases hr'.cons_inv with ⟨s'', hs', _⟩
      have hwait := step_waiting hpc' hs'
      rw [hw e' (by simp)] at hwait
      cases hwait

/-- A turn of the loop followed by the rest of the batch; `tl` is what the rest is acted on for. -/
theorem acts_turn (hpc : s.pc = .dispatching i n) (hi : i < n) (hr : Run Step s es t)
    (hw : ∀ e ∈ es, e.isWait = false) {fd : Int} (he : event_fd s i = some fd) :
    (es = [] ∧ t.pc ≠ .waiting) ∨
      ∃ e es' s', es = e :: es' ∧ Step s e s' ∧ s'.pc = .dispatching (i + 1) n ∧ s'.sd = s.sd ∧
        Run Step s' es' t ∧ (∀ e ∈ es', e.isWait = false) ∧ acts es = s.due fd :: acts es' := by
  cases es with
  | nil =>
    refine Or.inl ⟨rfl, fun ht ↦ ?_⟩
    rw [hr.nil_inv, hpc] at ht
    cases ht
  | cons e es =>
    rcases hr.cons_inv with ⟨s', hs, hr'⟩
    rcases act_step hpc hi hs with ⟨hpc', hsd, fd', he', hact⟩
    rw [he, Option.some.injEq] at he'
    subst he'
    refine Or.inr ⟨e, es, s', rfl, hs, hpc', hsd, hr', fun e' hm ↦ hw e' (by simp [hm]), ?_⟩
    rw [acts, List.filterMap_cons, hact]
    rfl

theorem acts_last (hpc : s.pc = .dispatching i (i + 1)) (hr : Run Step s es t)
    (hw : ∀ e ∈ es, e.isWait = false) {fd : Int} (he : event_fd s i = some fd) :
    acts es <+: [s.due fd] ∧ (t.pc = .waiting → acts es = [s.due fd]) := by
  rcases acts_turn hpc (Nat.lt_succ_self i) hr hw he with ⟨rfl, ht⟩ | ⟨e, es', s', rfl, _, hpc', _, hr', hw', ha⟩
  · exact ⟨List.nil_prefix, fun h ↦ absurd h ht⟩
  · rw [ha, acts_none hpc' hr' hw']
    exact ⟨List.prefix_refl _, fun _ ↦ rfl⟩

/-- The batch of two: the second event is acted on for the descriptor it leads to after the first. -/
theorem acts_two (hpc : s.pc = .dispatching 0 2) (h : Inv base lst own s) (hr : Run Step s es t)
    (hw : ∀ e ∈ es, e.isWait = false) {x y : Int} (hx : event_fd s 0 = some x)
    (hy : event_fd s 1 = some y) :
    (es = [] ∧ t.pc ≠ .waiting) ∨ ∃ z, acts es <+: [s.due x, s.due z] ∧
      (t.pc = .waiting → acts es = [s.due x, s.due z]) ∧
      (x = s.sd ∧ s.nopen < s.ncons ∧ s.isopen 0 = true ∧ s.isopen 1 = false → z ∉ s.fds) ∧
      (¬(x = s.sd ∧ s.nopen < s.ncons ∧ s.isopen 0 = true ∧ s.isopen 1 = false) → z = y) := by
  rcases acts_turn hpc (by decide) hr hw hx with hnil | ⟨e, es', s', rfl, hs, hpc', hsd, hr', hw', ha⟩
  · exact Or.inl hnil
  have hdue : ∀ fd, s'.due fd = s.due fd := fun fd ↦ by simp only [State.due, hsd]
  rcases event_fd_step h hpc (show 0 < 1 by decide) (by decide) hs with
    ⟨hkeep, hnot⟩ | ⟨z, tptr, rfl, hz, hfresh⟩
  · -- the first event did not take slot 1
    rcases acts_last hpc' hr' hw' (hkeep.trans hy) with ⟨hpre, hall⟩
    rw [hdue] at hpre hall
    refine Or.inr ⟨y, ?_, fun ht ↦ by rw [ha, hall ht], ?_, fun _ ↦ rfl⟩
    · rw [ha]
      exact (List.prefix_cons_inj _).mpr hpre
    · rintro ⟨rfl, hn, h01⟩
      rcases accept_step hpc (by decide) hx hn hs with ⟨fd, tptr, he⟩
      rw [(firstFree_eq_one_iff h hn).mpr h01] at he
      exact absurd he (hnot fd tptr)
  · rcases acts_last hpc' hr' hw' hz with ⟨hpre, hall⟩
    rw [hdue] at hpre hall
    refine Or.inr ⟨z, ?_, fun ht ↦ by rw [ha, hall ht], fun _ ↦ hfresh, fun hcond ↦ ?_⟩
    · rw [ha]
      exact (List.prefix_cons_inj _).mpr hpre
    · rcases accept_inv hpc hs with ⟨hx', hn, hone⟩
      rw [hx, Option.some.injEq] at hx'
      exact absurd ⟨hx', hn, (firstFree_eq_one_iff h hn).mp hone.symm⟩ hcond

end Turns

/-! ## Every batch of every run -/

section Runs

variable {ncons : Nat} {sd epfd : Int} {isopen : Nat → Bool} {cd : Nat → Int} {fds : Finset Int}
  {lst : Addr} {es post : List Event} {ready : List Int} {s t : State}

theorem overwrites_pair {x y : Int} :
    Overwrites s [x, y] ↔ x = s.sd ∧ s.nopen < s.ncons ∧ s.isopen 0 = true ∧ s.isopen 1 = false := by
  constructor
  · rintro ⟨fd, he, hcond⟩
    simp only [List.cons.injEq] at he
    exact ⟨he.1, hcond⟩
  · rintro ⟨rfl, hcond⟩
    exact ⟨y, rfl, hcond⟩

/-- What a batch is acted on for, when none of its events is overwritten and when one is. -/
theorem acts_batch {base : Finset Int} {own : Nat → Option Addr} (h : Inv base lst own s)
    (hr : Reports s ready) (hp : Run Step (epoll_wait s ready) post t)
    (hw : ∀ e ∈ post, e.isWait = false) :
    (¬Overwrites s ready → acts post <+: ready.map s.due ∧
      (t.pc = .waiting → acts post = ready.map s.due)) ∧
    (Overwrites s ready → t.pc = .waiting → acts post ≠ ready.map s.due) := by
  have hu := inv_epoll_wait h hr
  have hfd := fun j (hj : j < ready.length) ↦ event_fd_epoll_wait h hr hj
  rcases ready with _ | ⟨x, _ | ⟨y, _ | ⟨z, ready⟩⟩⟩
  · rw [acts_none (n := 0) rfl hp hw]
    refine ⟨fun _ ↦ ⟨List.nil_prefix, fun _ ↦ rfl⟩, ?_⟩
    rintro ⟨fd, he, _⟩
    cases he
  · refine ⟨fun _ ↦ acts_last (i := 0) rfl hp hw (hfd 0 (by simp)), ?_⟩
    rintro ⟨fd, he, _⟩
    cases he
  · rw [overwrites_pair]
    rcases acts_two rfl hu hp hw (hfd 0 (by simp)) (hfd 1 (by simp)) with
      ⟨rfl, ht⟩ | ⟨z, hpre, hall, hover, hkeep⟩
    · exact ⟨fun _ ↦ ⟨List.nil_prefix, fun h ↦ absurd h ht⟩, fun _ h ↦ absurd h ht⟩
    · refine ⟨fun hcond ↦ ?_, fun hcond ht he ↦ ?_⟩
      · rw [hkeep hcond] at hpre hall
        exact ⟨hpre, hall⟩
      · rw [hall ht] at he
        simp only [List.map_cons, List.map_nil, List.cons.injEq, and_true] at he
        have hzy := due_inj (s := epoll_wait s [x, y]) he.2
        rcases Option.isSome_iff_exists.mp (hr.2.2 y (by simp)) with ⟨a, ha⟩
        refine hover hcond ?_
        rw [hzy]
        exact h.registered_open ha
  · have hlen := hr.1
    simp only [List.length_cons, maxevents] at hlen
    omega

/-- In every reachable state, for every batch that `epoll_wait` returns and every way its processing
goes: the events are acted on in order, each once and for the descriptor it was reported for, if
and only if the batch is not the listening socket followed by a client while slot 1 is the one to
be taken.  Outside of that case this also holds of a processing that is not finished, which serves
reported clients only. -/
theorem epoll_dispatch (h : Run Step (main_init ncons sd epfd isopen cd fds lst) es s)
    {u : State} (hs : Step s (.wait ready) u) (hp : Run Step u post t)
    (hw : ∀ e ∈ post, e.isWait = false) :
    (t.pc = .waiting → (acts post = ready.map s.due ↔ ¬Overwrites s ready)) ∧
    (¬Overwrites s ready → acts post <+: ready.map s.due ∧
      ∀ fd, .client fd ∈ acts post → fd ∈ ready) := by
  cases hs with
  | wait _ hr =>
    rcases acts_batch (run_inv h) hr hp hw with ⟨hgood, hbad⟩
    refine ⟨fun ht ↦ ⟨fun he hover ↦ hbad hover ht he, fun hn ↦ (hgood hn).2 ht⟩, fun hn ↦ ?_⟩
    refine ⟨(hgood hn).1, fun fd hm ↦ ?_⟩
    rcases List.mem_map.mp ((hgood hn).1.subset hm) with ⟨r, hr', he⟩
    unfold State.due at he
    split at he
    next => cases he
    next => cases he; exact hr'

-- One client (descriptor 5) is connected when it and the listening socket are reported.
def connected : State :=
  let s := epoll_wait (main_init 2 3 4 (fun _ ↦ true) (fun _ ↦ 0) {0, 1, 2} 100) [3]
  { ((accept_it s 5 101 true).get rfl).2 with pc := .waiting }

theorem run_connected : Run Step (main_init 2 3 4 (fun _ ↦ true) (fun _ ↦ 0) {0, 1, 2} 100)
    [.wait [3], .accept 0 5 101, .wrap] connected := by
  let s := epoll_wait (main_init 2 3 4 (fun _ ↦ true) (fun _ ↦ 0) {0, 1, 2} 100) [3]
  let t := ((accept_it s 5 101 true).get rfl).2
  have ht : accept_it s 5 101 true = some (0, t) := rfl
  have haccept : Step s (.accept 0 5 101) { t with pc := .dispatching 1 1 } :=
    .accept rfl (by decide) rfl (by decide) (by decide) rfl ht
  exact .cons (.wait rfl ⟨by decide, by decide, by decide⟩) (.cons haccept (.cons (.wrap rfl (by decide))
    .nil))

/-- The new client gets slot 1, so `handle_client` is called for it and the first client, which was
reported, is not served. -/
theorem epoll_dispatch_lost :
    ∃ u t, Step connected (.wait [3, 5]) u ∧ Run Step u [.accept 1 6 102, .serve 6, .wrap] t ∧
      t.pc = .waiting ∧ acts [.accept 1 6 102, .serve 6, .wrap] ≠ [3, 5].map connected.due ∧
      Event.serve 6 ∈ [.accept 1 6 102, .serve 6, .wrap] ∧ (6 : Int) ∉ [3, 5] ∧
      ∃ es, Run Step (main_init 2 3 4 (fun _ ↦ true) (fun _ ↦ 0) {0, 1, 2} 100) es connected := by
  let u := epoll_wait connected [3, 5]
  let t := ((accept_it u 6 102 true).get rfl).2
  have ht : accept_it u 6 102 true = some (1, t) := rfl
  have haccept : Step u (.accept 1 6 102) { t with pc := .dispatching 1 2 } :=
    .accept rfl (by decide) rfl (by decide) (by decide) rfl ht
  have hserve : Step { t with pc := .dispatching 1 2 } (.serve 6) { t with pc := .dispatching 2 2 } :=
    @Step.serve { t with pc := .dispatching 1 2 } 1 2 6 1 rfl (by decide) rfl (by decide) (by decide)
  exact ⟨u, { t with pc := .waiting }, .wait rfl ⟨by decide, by decide, by decide⟩,
    .cons haccept (.cons hserve (.cons (.wrap (i := 2) (n := 2) rfl (by decide)) .nil)), rfl,
    by decide, by decide, by decide, _, run_connected⟩

-- The same batch in the other order.
theorem epoll_dispatch_client_first :
    ∃ u t, Step connected (.wait [5, 3]) u ∧ Run Step u [.serve 5, .accept 1 6 102, .wrap] t ∧
      acts [.serve 5, .accept 1 6 102, .wrap] = [5, 3].map connected.due := by
  let u := epoll_wait connected [5, 3]
  let v : State := { u with pc := .dispatching 1 2 }
  let t := ((accept_it v 6 102 true).get rfl).2
  have hwait : Step connected (.wait [5, 3]) u := .wait rfl ⟨by decide, by decide, by decide⟩
  have ht : accept_it v 6 102 true = some (1, t) := rfl
  have hserve : Step u (.serve 5) v :=
    @Step.serve u 0 2 5 1 rfl (by decide) rfl (by decide) (by decide)
  have haccept : Step v (.accept 1 6 102) { t with pc := .dispatching 2 2 } :=
    .accept rfl (by decide) rfl (by decide) (by decide) rfl ht
  have hrun : Run Step u [.serve 5, .accept 1 6 102, .wrap] { t with pc := .waiting } :=
    .cons hserve (.cons haccept (.cons (.wrap (i := 2) (n := 2) rfl (by decide)) .nil))
  refine ⟨u, _, hwait, hrun, ((epoll_dispatch run_connected hwait hrun (by decide)).1 rfl).mpr ?_⟩
  rintro ⟨fd, he, _⟩
  exact absurd he (by simp [connected, main_init, epoll_wait, accept_it])

end Runs

end OK210Drivers.Server.Epoll
