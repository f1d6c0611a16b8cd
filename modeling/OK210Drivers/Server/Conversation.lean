import OK210Drivers.Server.Clients
import OK210Drivers.Server.SelectDescriptors

/-!
# What holds while clients talk to the server

A connection that a client has made is in the queue or belongs to one descriptor of the server, until the
client has closed it, and the server finds something to do on every descriptor that `select` has
reported and that it has not come to yet.
-/

open Library

namespace OK210Drivers.Server.Lab53

variable {C : Type} {p : Setup C} {s t : State C} {e : Event C}

/-- The server has something to do for the connection that a descriptor is for. -/
def State.Due (s : State C) (d : Int) : Prop :=
  ∃ x, s.owner d = some x ∧ (s.up x ≠ [] ∨ s.closed x = true)

/-- The client has called `connect` for place `j` of its `sdvec`. -/
def Pc.Connected (pc : Pc) (n j : Nat) : Prop :=
  match pc with
  | .opening i => j < i
  | _ => j < n

def Pc.HasClosed (pc : Pc) (j : Nat) : Prop :=
  match pc with
  | .closing i => j < i
  | .exited => True
  | _ => False

def Pc.InRange (pc : Pc) (n nwrites : Nat) : Prop :=
  match pc with
  | .opening i => i ≤ n
  | .writing k => k ≤ nwrites
  | .receiving k j => k < nwrites ∧ j < n
  | .closing i => i ≤ n
  | .exited => True

def State.Connected (p : Setup C) (s : State C) (x : Conn C) : Prop := (s.pc x.1).Connected (p.ncons x.1) x.2

/-- What `select` has reported and the server has not come to. -/
def State.Place (s : State C) : Prop :=
  match s.server.pc with
  | .top => True
  | .calling => s.server.testset = s.server.fdset
  | .listening => s.server.testset ⊆ s.server.fdset ∧ ∀ d ∈ s.server.testset, s.Readable d
  | .serving i => ∀ ci, i ≤ ci → ci < s.server.ncons → Select.readable s.server ci = true →
      s.Due (s.server.cd ci)

/-- Each connection is in one place of the queue or belongs to one of the server's descriptors. -/
structure Attached (p : Setup C) (s : State C) : Prop where
  owned : ∀ d, (∃ x, s.owner d = some x) ↔ d ∈ s.server.clients
  owner_inj : ∀ d d' x, s.owner d = some x → s.owner d' = some x → d = d'
  queued_once : s.pending.Nodup
  queued_free : ∀ x ∈ s.pending, ∀ d, s.owner d ≠ some x
  connected : ∀ x, (x ∈ s.pending ∨ ∃ d, s.owner d = some x) → s.Connected p x
  live : ∀ x, s.Connected p x → s.closed x = false → x ∈ s.pending ∨ ∃ d, s.owner d = some x

structure Inv (p : Setup C) (s : State C) : Prop where
  server : Select.Inv s.server
  numbered : ∃ base, Select.Numbered base s.server ∧ s.server.ncons ≤ Select.room base
  place : s.Place
  attached : Attached p s
  closed_pc : ∀ x, s.closed x = true → (s.pc x.1).HasClosed x.2
  in_range : ∀ c, (s.pc c).InRange (p.ncons c) (p.nwrites c)
  waiting : ∀ c k j, s.pc c = .receiving k j → s.up (c, j) ≠ [] ∨ s.down (c, j) ≠ []

/-! ## The texts -/

theorem request_ne_nil (p : Setup C) (c : C) (j k : Nat) : p.request c j k ≠ [] :=
  List.append_ne_nil_of_right_ne_nil _ (by decide)

theorem response_ne_nil (p : Setup C) : p.response ≠ [] :=
  List.append_ne_nil_of_right_ne_nil _ (by decide)

/-! ## The descriptors -/

theorem accept_fresh (fds : Finset Int) (fd : Int) (h : Accept fds fd) : fd ∉ fds := h.1.1.2

theorem step_lowest {v w : Select.State} {ev : Select.Event} (h : Select.Step Accept v ev w) :
    Select.Step AcceptLowest v ev w := by
  cases h with
  | enter hpc => exact .enter hpc
  | select hpc hr => exact .select hpc hr
  | accept hpc hsd hn hacc ha => exact .accept hpc hsd hn hacc.1 ha
  | noAccept hpc hn => exact .noAccept hpc hn
  | handle hpc hci hr => exact .handle hpc hci hr
  | pass hpc hci hr => exact .pass hpc hci hr
  | wrap hpc hci => exact .wrap hpc hci

theorem numbered_step {v w : Select.State} {ev : Select.Event} (hi : Select.Inv v)
    (h : ∃ base, Select.Numbered base v ∧ v.ncons ≤ Select.room base) (hs : Select.Step Accept v ev w) :
    ∃ base, Select.Numbered base w ∧ w.ncons ≤ Select.room base := by
  obtain ⟨base, hn, hroom⟩ := h
  refine ⟨base, hn.step hi (step_lowest hs), ?_⟩
  rw [(Select.step_fixed hs).1]
  exact hroom

/-! ## What a step takes away -/

theorem State.Due.mono {d : Int} (h : s.Due d) (howner : t.owner d = s.owner d)
    (hup : ∀ x, s.up x ≠ [] → t.up x ≠ []) (hclosed : ∀ x, s.closed x = true → t.closed x = true) :
    t.Due d := by
  obtain ⟨x, hx, hdue⟩ := h
  exact ⟨x, howner.trans hx, hdue.imp (hup x) (hclosed x)⟩

/-- A step that leaves the server alone and takes nothing away. -/
theorem State.Place.mono (h : s.Place) (hserver : t.server = s.server) (howner : t.owner = s.owner)
    (hq : s.pending ≠ [] → t.pending ≠ []) (hup : ∀ x, s.up x ≠ [] → t.up x ≠ [])
    (hclosed : ∀ x, s.closed x = true → t.closed x = true) : t.Place := by
  have hdue : ∀ d, s.Due d → t.Due d := fun d hd ↦ hd.mono (by rw [howner]) hup hclosed
  unfold State.Place at h ⊢
  rw [hserver]
  cases hpc : s.server.pc with
  | top => trivial
  | calling =>
    rw [hpc] at h
    exact h
  | listening =>
    rw [hpc] at h
    refine ⟨h.1, fun d hd ↦ ?_⟩
    rcases h.2 d hd with ⟨hsd, hp⟩ | hd
    · exact Or.inl ⟨by rw [hserver]; exact hsd, hq hp⟩
    · exact Or.inr (hdue d hd)
  | serving i =>
    rw [hpc] at h
    exact fun ci hi hci hr ↦ hdue _ (h ci hi hci hr)

/-! ## The server -/

theorem mem_clients {d : Int} {v : Select.State} :
    d ∈ v.clients ↔ ∃ i, i < v.ncons ∧ v.isopen i = true ∧ v.cd i = d := mem_held

/-- A step of the server by which no connection comes or goes. -/
theorem Attached.server (h : Attached p s) (hclients : t.server.clients = s.server.clients)
    (howner : t.owner = s.owner) (hq : t.pending = s.pending) (hclosed : t.closed = s.closed)
    (hpc : t.pc = s.pc) : Attached p t where
  owned d := by rw [howner, hclients]; exact h.owned d
  owner_inj := by rw [howner]; exact h.owner_inj
  queued_once := by rw [hq]; exact h.queued_once
  queued_free := by rw [hq, howner]; exact h.queued_free
  connected x hx := by
    rw [hq, howner] at hx
    have hx' := h.connected x hx
    unfold State.Connected at hx' ⊢
    rwa [hpc]
  live x hx hc := by
    unfold State.Connected at hx
    rw [hpc] at hx
    rw [hclosed] at hc
    rw [hq, howner]
    exact h.live x hx hc

/-- A step of the server that the clients do not notice. -/
theorem Inv.server_step (h : Inv p s) {ev : Select.Event} (hs : Select.Step Accept s.server ev t.server)
    (hplace : t.Place) (ha : Attached p t) (hclosed : t.closed = s.closed) (hpc : t.pc = s.pc)
    (hwait : ∀ x, s.up x ≠ [] ∨ s.down x ≠ [] → t.up x ≠ [] ∨ t.down x ≠ []) : Inv p t where
  server := Select.inv_step accept_fresh h.server hs
  numbered := numbered_step h.server h.numbered hs
  place := hplace
  attached := ha
  closed_pc x hx := by
    rw [hclosed] at hx
    rw [hpc]
    exact h.closed_pc x hx
  in_range c := by
    rw [hpc]
    exact h.in_range c
  waiting c k j hw := by
    rw [hpc] at hw
    exact hwait _ (h.waiting c k j hw)

/-- A connection of the server's is not the listening socket. -/
theorem cd_ne_sd {v : Select.State} (h : Select.Inv v) {ci : Nat} (hci : ci < v.ncons)
    (hopen : v.isopen ci = true) : v.cd ci ≠ v.sd :=
  fun he ↦ h.sd_free (he ▸ mem_clients.mpr ⟨ci, hci, hopen, rfl⟩)

theorem inv_quiet (h : Inv p s) {ev : Select.Event} {v : Select.State} (he : Quiet ev)
    (hs : Select.Step Accept s.server ev v) : Inv p { s with server := v } := by
  have hstep := hs
  have hplace := h.place
  unfold State.Place at hplace
  refine h.server_step hstep ?_ ?_ rfl rfl fun _ ↦ id
  · cases hs with
    | enter hpc =>
      rw [Select.enter_eq]
      exact rfl
    | noAccept hpc hn =>
      rw [hpc] at hplace
      intro ci _ hci hr
      obtain ⟨hopen, hmem⟩ := Select.readable_iff.mp hr
      exact (hplace.2 _ hmem).resolve_left fun hsd ↦ cd_ne_sd h.server hci hopen hsd.1
    | pass hpc hci hr =>
      rw [hpc] at hplace
      exact fun ci' hle ↦ hplace ci' (Nat.le_of_succ_le hle)
    | wrap => exact trivial
    | select => rcases he with he | he | he | he <;> cases he
    | accept => rcases he with he | he | he | he <;> cases he
    | handle => rcases he with he | he | he | he <;> cases he
  · refine h.attached.server ?_ rfl rfl rfl rfl
    cases hs with
    | enter hpc => rw [Select.enter_eq]; rfl
    | noAccept => rfl
    | pass => rfl
    | wrap => rfl
    | select => rfl
    | accept => rcases he with he | he | he | he <;> cases he
    | handle => rcases he with he | he | he | he <;> cases he

theorem inv_select (h : Inv p s) {ready : Finset Int} {v : Select.State}
    (hs : Select.Step Accept s.server (.select ready) v)
    (hready : ∀ d, d ∈ ready ↔ d ∈ s.server.testset ∧ s.Readable d) : Inv p { s with server := v } := by
  have hstep := hs
  have hplace := h.place
  unfold State.Place at hplace
  cases hs with
  | select hpc hr =>
    rw [hpc] at hplace
    refine h.server_step hstep ⟨?_, fun d hd ↦ ((hready d).mp hd).2⟩
      (h.attached.server rfl rfl rfl rfl rfl) rfl rfl fun _ ↦ id
    exact fun d hd ↦ hplace ▸ hr hd

/-- The server takes the first connection of the queue. -/
theorem Attached.accept (h : Attached p s) {x : Conn C} {rest : List (Conn C)} (hq : s.pending = x :: rest)
    {fd : Int} {v : Select.State} (hfd : fd ∉ s.server.clients)
    (hclients : v.clients = insert fd s.server.clients) :
    Attached p { s with server := v, pending := rest, owner := Function.update s.owner fd (some x) } := by
  have hnone : ∀ y, s.owner fd ≠ some y := fun y hy ↦ hfd ((h.owned fd).mp ⟨y, hy⟩)
  have hnd := h.queued_once
  rw [hq] at hnd
  obtain ⟨hxrest, hrest⟩ := List.nodup_cons.mp hnd
  have hxq : x ∈ s.pending := hq ▸ List.mem_cons_self
  have hin : ∀ y ∈ rest, y ∈ s.pending := fun y hy ↦ hq ▸ List.mem_cons_of_mem x hy
  -- A descriptor is that of the new connection or an old one.
  have hupd : ∀ d y, Function.update s.owner fd (some x) d = some y ↔
      d = fd ∧ y = x ∨ d ≠ fd ∧ s.owner d = some y := by
    intro d y
    by_cases hd : d = fd
    · rw [hd, Function.update_self, Option.some.injEq]
      exact ⟨fun he ↦ Or.inl ⟨rfl, he.symm⟩, fun h ↦ h.elim (fun h ↦ h.2.symm) fun h ↦ absurd rfl h.1⟩
    · rw [Function.update_of_ne hd]
      exact ⟨fun ho ↦ Or.inr ⟨hd, ho⟩, fun h ↦ h.elim (fun h ↦ absurd h.1 hd) And.right⟩
  constructor
  case owned =>
    intro d
    show (∃ y, Function.update s.owner fd (some x) d = some y) ↔ d ∈ v.clients
    rw [hclients, Finset.mem_insert, ← h.owned d]
    constructor
    · rintro ⟨y, hy⟩
      exact ((hupd d y).mp hy).imp And.left fun h ↦ ⟨y, h.2⟩
    · rintro (rfl | ⟨y, hy⟩)
      · exact ⟨x, (hupd d x).mpr (Or.inl ⟨rfl, rfl⟩)⟩
      · refine ⟨y, (hupd d y).mpr (Or.inr ⟨?_, hy⟩)⟩
        rintro rfl
        exact hnone y hy
  case owner_inj =>
    intro d d' y hd hd'
    rcases (hupd d y).mp hd with ⟨rfl, rfl⟩ | ⟨-, ho⟩
    · rcases (hupd d' y).mp hd' with ⟨rfl, -⟩ | ⟨-, ho'⟩
      · rfl
      · exact absurd ho' (h.queued_free y hxq d')
    · rcases (hupd d' y).mp hd' with ⟨rfl, rfl⟩ | ⟨-, ho'⟩
      · exact absurd ho (h.queued_free y hxq d)
      · exact h.owner_inj d d' y ho ho'
  case queued_once => exact hrest
  case queued_free =>
    intro y hy d hd
    rcases (hupd d y).mp hd with ⟨-, rfl⟩ | ⟨-, ho⟩
    · exact hxrest hy
    · exact h.queued_free y (hin y hy) d ho
  case connected =>
    rintro y (hy | ⟨d, hd⟩)
    · exact h.connected y (Or.inl (hin y hy))
    · rcases (hupd d y).mp hd with ⟨-, rfl⟩ | ⟨-, ho⟩
      · exact h.connected y (Or.inl hxq)
      · exact h.connected y (Or.inr ⟨d, ho⟩)
  case live =>
    intro y hy hc
    rcases h.live y hy hc with hm | ⟨d, hd⟩
    · rw [hq] at hm
      rcases List.mem_cons.mp hm with rfl | hm
      · exact Or.inr ⟨fd, (hupd fd y).mpr (Or.inl ⟨rfl, rfl⟩)⟩
      · exact Or.inl hm
    · refine Or.inr ⟨d, (hupd d y).mpr (Or.inr ⟨?_, hd⟩)⟩
      rintro rfl
      exact hnone y hd

theorem inv_accept (h : Inv p s) {x : Conn C} {rest : List (Conn C)} (hq : s.pending = x :: rest) {ci : Nat}
    {fd : Int} {v : Select.State} (hs : Select.Step Accept s.server (.accept ci fd) v) :
    Inv p { s with server := v, pending := rest, owner := Function.update s.owner fd (some x) } := by
  have hstep := hs
  have hplace := h.place
  unfold State.Place at hplace
  cases hs with
  | accept hpc hsd hn hacc ha =>
    rw [hpc] at hplace
    obtain ⟨rfl, rfl⟩ := Select.accept_connection_eq ha
    have hci := h.server.slot_lt hn
    have hfree := firstFree_free hci
    have hset : fd ∉ s.server.fdset := fun hm ↦ accept_fresh _ _ hacc (h.server.fdset_open hm)
    have hfd : fd ∉ s.server.clients := by
      rw [h.server.fdset_eq] at hset
      exact fun hm ↦ hset (Finset.mem_insert_of_mem hm)
    refine h.server_step hstep ?_ (h.attached.accept hq hfd (held_take hci hfree)) rfl rfl fun _ ↦ id
    -- The new connection was not there when `select` was called.
    intro i _ hi hr
    obtain ⟨hopen, hmem⟩ := Select.readable_iff.mp hr
    by_cases hnew : i = firstFree s.server.isopen s.server.ncons
    · subst hnew
      simp only [Function.update_self] at hmem
      exact absurd (hplace.1 hmem) hset
    · simp only [Function.update_of_ne hnew] at hopen hmem ⊢
      have hdue : s.Due _ := (hplace.2 _ hmem).resolve_left fun he ↦ cd_ne_sd h.server hi hopen he.1
      refine hdue.mono (Function.update_of_ne ?_ ..) (fun _ ↦ id) fun _ ↦ id
      rintro rfl
      exact hset (hplace.1 hmem)

/-- The server gives up a connection that its client has closed. -/
theorem Attached.hangup (h : Attached p s) {fd : Int} {x : Conn C} {v : Select.State}
    (hx : s.owner fd = some x) (hc : s.closed x = true) (hclients : v.clients = s.server.clients.erase fd) :
    Attached p { s with server := v, owner := Function.update s.owner fd none } := by
  have hupd : ∀ d y, Function.update s.owner fd none d = some y ↔ d ≠ fd ∧ s.owner d = some y := by
    intro d y
    by_cases hd : d = fd
    · simp [hd]
    · simp [hd]
  constructor
  case owned =>
    intro d
    show (∃ y, Function.update s.owner fd none d = some y) ↔ d ∈ v.clients
    rw [hclients, Finset.mem_erase, ← h.owned d]
    simp only [hupd, exists_and_left]
  case owner_inj =>
    intro d d' y hd hd'
    exact h.owner_inj d d' y ((hupd d y).mp hd).2 ((hupd d' y).mp hd').2
  case queued_once => exact h.queued_once
  case queued_free => exact fun y hy d hd ↦ h.queued_free y hy d ((hupd d y).mp hd).2
  case connected =>
    rintro y (hy | ⟨d, hd⟩)
    · exact h.connected y (Or.inl hy)
    · exact h.connected y (Or.inr ⟨d, ((hupd d y).mp hd).2⟩)
  case live =>
    intro y hy hyc
    refine (h.live y hy hyc).imp_right fun ⟨d, hd⟩ ↦ ⟨d, (hupd d y).mpr ⟨?_, hd⟩⟩
    rintro rfl
    rw [hx, Option.some.injEq] at hd
    rw [← hd, hc] at hyc
    cases hyc

/-! ## The clients -/

variable [DecidableEq C]

/-- A client goes from one place to another. -/
theorem Inv.goto (h : Inv p s) {c : C} {pc : Pc} (hserver : t.server = s.server) (howner : t.owner = s.owner)
    (hpc : t.pc = Function.update s.pc c pc) (ha : Attached p t) (hq : s.pending ≠ [] → t.pending ≠ [])
    (hup : ∀ x, s.up x ≠ [] → t.up x ≠ []) (hdown : ∀ x, x.1 ≠ c → s.down x ≠ [] → t.down x ≠ [])
    (hclosed : ∀ x, s.closed x = true → t.closed x = true)
    (hnew : ∀ x, t.closed x = true → s.closed x = true ∨ x.1 = c ∧ pc.HasClosed x.2)
    (hkeep : ∀ j, (s.pc c).HasClosed j → pc.HasClosed j) (hrange : pc.InRange (p.ncons c) (p.nwrites c))
    (hwait : ∀ k j, pc = .receiving k j → t.up (c, j) ≠ []) : Inv p t where
  server := by rw [hserver]; exact h.server
  numbered := by rw [hserver]; exact h.numbered
  place := h.place.mono hserver howner hq hup hclosed
  attached := ha
  closed_pc x hx := by
    rw [hpc]
    by_cases hc : x.1 = c
    · rw [hc, Function.update_self]
      rcases hnew x hx with hold | ⟨-, hnow⟩
      · exact hkeep _ (hc ▸ h.closed_pc x hold)
      · exact hnow
    · rw [Function.update_of_ne hc]
      rcases hnew x hx with hold | ⟨hc', -⟩
      · exact h.closed_pc x hold
      · exact absurd hc' hc
  in_range c' := by
    rw [hpc]
    by_cases hc : c' = c
    · rw [hc, Function.update_self]
      exact hrange
    · rw [Function.update_of_ne hc]
      exact h.in_range c'
  waiting c' k j hw := by
    rw [hpc] at hw
    by_cases hc : c' = c
    · subst hc
      rw [Function.update_self] at hw
      exact Or.inl (hwait k j hw)
    · rw [Function.update_of_ne hc] at hw
      exact (h.waiting c' k j hw).imp (hup _) (hdown _ hc)

theorem connected_goto {c : C} {pc : Pc} (hpc : t.pc = Function.update s.pc c pc)
    (h : ∀ j, pc.Connected (p.ncons c) j ↔ (s.pc c).Connected (p.ncons c) j) (x : Conn C) :
    t.Connected p x ↔ s.Connected p x := by
  unfold State.Connected
  rw [hpc]
  by_cases hx : x.1 = c
  · rw [hx, Function.update_self]
    exact h x.2
  · rw [Function.update_of_ne hx]

/-- A step of a client that neither opens a connection nor takes one from the server. -/
theorem Attached.goto (h : Attached p s) {c : C} {pc : Pc} (hserver : t.server = s.server)
    (howner : t.owner = s.owner) (hq : t.pending = s.pending) (hpc : t.pc = Function.update s.pc c pc)
    (hclosed : ∀ x, s.closed x = true → t.closed x = true)
    (hconn : ∀ j, pc.Connected (p.ncons c) j ↔ (s.pc c).Connected (p.ncons c) j) : Attached p t where
  owned d := by rw [howner, hserver]; exact h.owned d
  owner_inj := by rw [howner]; exact h.owner_inj
  queued_once := by rw [hq]; exact h.queued_once
  queued_free := by rw [hq, howner]; exact h.queued_free
  connected x hx := by
    rw [hq, howner] at hx
    exact (connected_goto hpc hconn x).mpr (h.connected x hx)
  live x hx hc := by
    rw [hq, howner]
    refine h.live x ((connected_goto hpc hconn x).mp hx) ?_
    by_contra hs
    rw [hclosed x (by simpa using hs)] at hc
    cases hc

/-- A new connection joins the queue. -/
theorem Attached.connect (h : Attached p s) {c : C} {j : Nat} (hpc : s.pc c = .opening j) :
    Attached p { s.goto c (.opening (j + 1)) with pending := s.pending ++ [(c, j)] } := by
  have hnew : ¬s.Connected p (c, j) := by
    simp only [State.Connected, hpc, Pc.Connected]
    omega
  have hconn : ∀ x : Conn C, State.Connected p { s.goto c (.opening (j + 1)) with
      pending := s.pending ++ [(c, j)] } x ↔ s.Connected p x ∨ x = (c, j) := by
    intro x
    show (Function.update s.pc c (.opening (j + 1)) x.1).Connected _ _ ↔ (s.pc x.1).Connected _ _ ∨ _
    by_cases hx : x.1 = c
    · rw [hx, Function.update_self, hpc]
      show x.2 < j + 1 ↔ x.2 < j ∨ x = (c, j)
      rw [Nat.lt_succ_iff_lt_or_eq, Prod.ext_iff, hx]
      simp
    · rw [Function.update_of_ne hx]
      refine ⟨Or.inl, fun h ↦ h.resolve_right ?_⟩
      rintro rfl
      exact hx rfl
  constructor
  case owned => exact h.owned
  case owner_inj => exact h.owner_inj
  case queued_once =>
    refine List.nodup_append.mpr ⟨h.queued_once, List.nodup_singleton _, ?_⟩
    rintro x hx y hy rfl
    obtain rfl := List.mem_singleton.mp hy
    exact hnew (h.connected _ (Or.inl hx))
  case queued_free =>
    intro x hx d hd
    rcases List.mem_append.mp hx with hx | hx
    · exact h.queued_free x hx d hd
    · obtain rfl := List.mem_singleton.mp hx
      exact hnew (h.connected _ (Or.inr ⟨d, hd⟩))
  case connected =>
    intro x hx
    rw [hconn]
    rcases hx with hx | hx
    · rcases List.mem_append.mp hx with hx | hx
      · exact Or.inl (h.connected x (Or.inl hx))
      · exact Or.inr (List.mem_singleton.mp hx)
    · exact Or.inl (h.connected x (Or.inr hx))
  case live =>
    intro x hx hc
    rcases (hconn x).mp hx with hx | rfl
    · exact (h.live x hx hc).imp_left fun hm ↦ List.mem_append_left _ hm
    · exact Or.inl (List.mem_append_right _ (List.mem_singleton_self _))

theorem update_ne_nil {α : Type} {f : Conn C → List α} {x y : Conn C} {l : List α} (hl : l ≠ [])
    (h : f x ≠ []) : Function.update f y l x ≠ [] := by
  by_cases hx : x = y
  · rw [hx, Function.update_self]
    exact hl
  · rwa [Function.update_of_ne hx]

/-! ## Every step -/

theorem inv_client (h : Inv p s) (hs : ClientStep p s e t) : Inv p t := by
  cases hs with
  | @connect c j hpc hj hq =>
    refine h.goto rfl rfl rfl (h.attached.connect hpc) (fun _ ↦ by simp) (fun _ hx ↦ hx) (fun _ _ hx ↦ hx)
      (fun _ hx ↦ hx) (fun _ hx ↦ Or.inl hx) ?_ (Nat.succ_le_of_lt hj) (fun _ _ hw ↦ by cases hw)
    rw [hpc]
    exact fun _ hj ↦ hj.elim
  | @opened c hpc =>
    refine h.goto rfl rfl rfl (h.attached.goto rfl rfl rfl rfl (fun _ hx ↦ hx) ?_) id (fun _ hx ↦ hx)
      (fun _ _ hx ↦ hx) (fun _ hx ↦ hx) (fun _ hx ↦ Or.inl hx) ?_ (Nat.zero_le _)
      (fun _ _ hw ↦ by cases hw)
    · rw [hpc]
      exact fun _ ↦ Iff.rfl
    · rw [hpc]
      exact fun _ hj ↦ hj.elim
  | @send c k j hpc hk hj =>
    have hne : s.up (c, j) ++ p.request c j k ≠ [] :=
      List.append_ne_nil_of_right_ne_nil _ (request_ne_nil p c j k)
    refine h.goto rfl rfl rfl (h.attached.goto rfl rfl rfl rfl (fun _ hx ↦ hx) ?_) id
      (fun x hx ↦ update_ne_nil hne hx) (fun _ _ hx ↦ hx) (fun _ hx ↦ hx) (fun _ hx ↦ Or.inl hx) ?_
      ⟨hk, hj⟩ ?_
    · rw [hpc]
      exact fun _ ↦ Iff.rfl
    · rw [hpc]
      exact fun _ hj ↦ hj.elim
    · rintro k' j' hw
      cases hw
      show Function.update s.up (c, j) _ (c, j) ≠ []
      rwa [Function.update_self]
  | @recv c k j n hpc hpos hn hlen =>
    refine h.goto rfl rfl rfl (h.attached.goto rfl rfl rfl rfl (fun _ hx ↦ hx) ?_) id (fun _ hx ↦ hx)
      ?_ (fun _ hx ↦ hx) (fun _ hx ↦ Or.inl hx) ?_ ?_ (fun _ _ hw ↦ by cases hw)
    · rw [hpc]
      exact fun _ ↦ Iff.rfl
    · intro x hx hd
      show Function.update s.down (c, j) _ x ≠ []
      rwa [Function.update_of_ne fun he ↦ hx (by rw [he])]
    · rw [hpc]
      exact fun _ hj ↦ hj.elim
    · have hrange := h.in_range c
      rw [hpc] at hrange
      exact hrange.1
  | @written c hpc =>
    refine h.goto rfl rfl rfl (h.attached.goto rfl rfl rfl rfl (fun _ hx ↦ hx) ?_) id (fun _ hx ↦ hx)
      (fun _ _ hx ↦ hx) (fun _ hx ↦ hx) (fun _ hx ↦ Or.inl hx) ?_ (Nat.zero_le _) (fun _ _ hw ↦ by cases hw)
    · rw [hpc]
      exact fun _ ↦ Iff.rfl
    · rw [hpc]
      exact fun _ hj ↦ hj.elim
  | @close c j hpc hj =>
    have hmore : ∀ x, s.closed x = true → Function.update s.closed (c, j) true x = true := by
      intro x hx
      by_cases he : x = (c, j)
      · rw [he, Function.update_self]
      · rwa [Function.update_of_ne he]
    refine h.goto rfl rfl rfl (h.attached.goto rfl rfl rfl rfl hmore ?_) id (fun _ hx ↦ hx)
      (fun _ _ hx ↦ hx) hmore ?_ ?_ (Nat.succ_le_of_lt hj) (fun _ _ hw ↦ by cases hw)
    · rw [hpc]
      exact fun _ ↦ Iff.rfl
    · intro x hx
      change Function.update s.closed (c, j) true x = true at hx
      by_cases he : x = (c, j)
      · rw [he]
        exact Or.inr ⟨rfl, Nat.lt_succ_self j⟩
      · rw [Function.update_of_ne he] at hx
        exact Or.inl hx
    · rw [hpc]
      exact fun _ hi ↦ Nat.lt_succ_of_lt hi
  | @exit c hpc =>
    refine h.goto rfl rfl rfl (h.attached.goto rfl rfl rfl rfl (fun _ hx ↦ hx) ?_) id (fun _ hx ↦ hx)
      (fun _ _ hx ↦ hx) (fun _ hx ↦ hx) (fun _ hx ↦ Or.inl hx) ?_ trivial (fun _ _ hw ↦ by cases hw)
    · rw [hpc]
      exact fun _ ↦ Iff.rfl
    · exact fun _ _ ↦ trivial

/-- Turn `ci` of the second loop leaves the later ones as they are. -/
theorem serve_later {v : Select.State} (h : Select.Inv v) {ci i : Nat} (count : Int) (hci : ci < v.ncons)
    (hopen : v.isopen ci = true) (hlt : ci < i) (hi : i < v.ncons)
    (hr : Select.readable (Select.serve v ci count) i = true) :
    Select.readable v i = true ∧ (Select.serve v ci count).cd i = v.cd i ∧ v.cd i ≠ v.cd ci := by
  have hne : i ≠ ci := Nat.ne_of_gt hlt
  obtain ⟨m, -, heq⟩ := Select.terminate_client_eq v ci
  have hsame : (Select.serve v ci count).cd = v.cd := by
    unfold Select.serve
    split
    · rw [heq]
    · rfl
  obtain ⟨hop, hmem⟩ := Select.readable_iff.mp hr
  rw [Select.serve_testset, hsame] at hmem
  have hop' : v.isopen i = true := by
    unfold Select.serve at hop
    split at hop
    · rw [heq] at hop
      simpa [Function.update_of_ne hne] using hop
    · exact hop
  refine ⟨Select.readable_iff.mpr ⟨hop', hmem⟩, by rw [hsame], fun he ↦ ?_⟩
  exact hne (h.distinct.eq hi hop' hci hopen he)

theorem serve_clients_pos {v : Select.State} {ci : Nat} {count : Int} (hc : 0 < count) :
    Select.serve v ci count = { v with pc := .serving (ci + 1) } := by
  have h0 : handle_client count = 0 := if_pos hc
  rw [Select.serve, h0]
  rfl

theorem serve_clients_le {v : Select.State} (h : Select.Inv v) {ci : Nat} {count : Int} (hc : count ≤ 0)
    (hci : ci < v.ncons) (hopen : v.isopen ci = true) :
    (Select.serve v ci count).clients = v.clients.erase (v.cd ci) := by
  have h1 : handle_client count ≠ 0 := by
    rw [handle_client, if_neg (by omega)]
    decide
  obtain ⟨m, -, heq⟩ := Select.terminate_client_eq v ci
  rw [Select.serve, if_pos h1, heq]
  exact h.distinct.held_drop hci hopen

theorem inv_receive (h : Inv p s) {ci : Nat} {fd : Int} {x : Conn C} {n : Nat} {v : Select.State}
    (hx : s.owner fd = some x) (hpos : 0 < n) (hs : Select.Step Accept s.server (.handle ci fd n) v) :
    Inv p { s with
      server := v
      up := Function.update s.up x ((s.up x).drop n)
      down := Function.update s.down x (s.down x ++ p.response) } := by
  have hstep := hs
  have hplace := h.place
  unfold State.Place at hplace
  cases hs with
  | handle hpc hci hr =>
    rw [hpc] at hplace
    obtain ⟨hopen, hmem⟩ := Select.readable_iff.mp hr
    have hserve := @serve_clients_pos s.server ci n (Int.natCast_pos.mpr hpos)
    refine h.server_step hstep ?_ (h.attached.server (by rw [hserve]; rfl) rfl rfl rfl rfl) rfl rfl ?_
    · show State.Place _
      unfold State.Place
      simp only [Select.serve_pc]
      intro i hle hi hri
      have hi' : i < s.server.ncons := by rw [hserve] at hi; exact hi
      obtain ⟨hr', hcd, hne⟩ := serve_later h.server n hci hopen hle hi' hri
      obtain ⟨y, hy, hdue⟩ := hplace i (Nat.le_of_succ_le hle) hi' hr'
      have hyx : y ≠ x := by
        rintro rfl
        exact hne (h.attached.owner_inj _ _ _ hy hx)
      refine ⟨y, by rw [hcd]; exact hy, ?_⟩
      show Function.update s.up x _ y ≠ [] ∨ _
      rwa [Function.update_of_ne hyx]
    · intro y hy
      by_cases hyx : y = x
      · subst hyx
        refine Or.inr ?_
        show Function.update s.down y _ y ≠ []
        rw [Function.update_self]
        exact List.append_ne_nil_of_right_ne_nil _ (response_ne_nil p)
      · show Function.update s.up x _ y ≠ [] ∨ Function.update s.down x _ y ≠ []
        rwa [Function.update_of_ne hyx, Function.update_of_ne hyx]

omit [DecidableEq C] in
theorem inv_hangup (h : Inv p s) {ci : Nat} {fd : Int} {x : Conn C} {count : Int} {v : Select.State}
    (hx : s.owner fd = some x) (hc : s.closed x = true) (hle : count ≤ 0)
    (hs : Select.Step Accept s.server (.handle ci fd count) v) :
    Inv p { s with server := v, owner := Function.update s.owner fd none } := by
  have hstep := hs
  have hplace := h.place
  unfold State.Place at hplace
  cases hs with
  | handle hpc hci hr =>
    rw [hpc] at hplace
    obtain ⟨hopen, hmem⟩ := Select.readable_iff.mp hr
    refine h.server_step hstep ?_ (h.attached.hangup hx hc (serve_clients_le h.server hle hci hopen)) rfl rfl
      fun _ ↦ id
    show State.Place _
    unfold State.Place
    simp only [Select.serve_pc]
    intro i hlt hi hri
    have hi' : i < s.server.ncons := by
      obtain ⟨hn, -⟩ := Select.step_fixed (Select.Step.handle hpc hci hr : Select.Step Accept _ _ _)
      rwa [hn] at hi
    obtain ⟨hr', hcd, hne⟩ := serve_later h.server count hci hopen hlt hi' hri
    obtain ⟨y, hy, hdue⟩ := hplace i (Nat.le_of_succ_le hlt) hi' hr'
    refine ⟨y, ?_, hdue⟩
    rw [hcd]
    show Function.update s.owner (s.server.cd ci) none (s.server.cd i) = some y
    rw [Function.update_of_ne hne]
    exact hy

theorem inv_step (h : Inv p s) (hs : Step p s e t) : Inv p t := by
  rcases hs with hs | hs
  · cases hs with
    | quiet he hstep => exact inv_quiet h he hstep
    | select hstep hready _ => exact inv_select h hstep hready
    | accept hq hstep => exact inv_accept h hq hstep
    | receive hx hpos _ _ hstep => exact inv_receive h hx hpos hstep
    | hangup hx hc hle hstep => exact inv_hangup h hx hc hle hstep
  · exact inv_client h hs

/-! ## Runs -/

omit [DecidableEq C] in
theorem inv_start (p : Setup C) {ncons : Nat} {sd : Int} {isopen : Nat → Bool} {cd : Nat → Int}
    {fds : Finset Int} {v : Select.State} (h0 : Select.main_init ncons sd isopen cd fds = some v)
    (hroom : v.ncons ≤ Select.room (insert sd fds)) : Inv p (start v) := by
  obtain ⟨hpc, -, hnone⟩ := Select.main_init_empty h0
  have hnot : ∀ x, ¬(start v : State C).Connected p x := fun x hx ↦ Nat.not_lt_zero _ hx
  constructor
  case server => exact Select.inv_main_init h0
  case numbered => exact ⟨_, Select.numbered_main_init h0, hroom⟩
  case place =>
    unfold State.Place
    rw [show (start v : State C).server.pc = .top from hpc]
    trivial
  case attached =>
    constructor
    case owned =>
      intro d
      refine ⟨fun ⟨_, hx⟩ ↦ (by cases hx), fun hd ↦ ?_⟩
      obtain ⟨i, hi, hopen, -⟩ := mem_clients.mp hd
      exact absurd ⟨hi, hopen⟩ (hnone i)
    case owner_inj => exact fun _ _ _ hx ↦ by cases hx
    case queued_once => exact List.nodup_nil
    case queued_free => exact fun x hx ↦ absurd hx List.not_mem_nil
    case connected =>
      rintro x (hx | ⟨_, hx⟩)
      · exact absurd hx List.not_mem_nil
      · cases hx
    case live => exact fun x hx ↦ absurd hx (hnot x)
  case closed_pc => exact fun _ hx ↦ by cases hx
  case in_range => exact fun c ↦ Nat.zero_le _
  case waiting => exact fun _ _ _ hw ↦ by cases hw

theorem run_inv {s₀ : State C} {es : List (Event C)} (h0 : Inv p s₀) (h : Run (Step p) s₀ es s) : Inv p s :=
  h.state_invariant (Inv p) h0 fun _ _ _ hi hs ↦ inv_step hi hs

end OK210Drivers.Server.Lab53
