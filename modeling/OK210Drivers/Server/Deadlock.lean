import OK210Drivers.Server.Progress

/-!
# When clients and server block each other

A client waits for a response on one connection while its other connections keep slots of the server.  A
queue that is long enough for all the connections given, the clients can always finish exactly when those
others cannot fill all the slots.
-/

open Library

namespace OK210Drivers.Server.Lab53

variable {C : Type} [DecidableEq C] {p : Setup C} {s t : State C} {e : Event C}

/-! ## What the clients have left to do -/

/-- How many calls a client has before it. -/
def Pc.work (n w : Nat) : Pc → Nat
  | .opening i => n - i + 2 * w + n + 3
  | .writing k => 2 * (w - k) + n + 2
  | .receiving k _ => 2 * (w - k) + n + 1
  | .closing i => n - i + 1
  | .exited => 0

def State.work [Fintype C] (p : Setup C) (s : State C) : Nat := ∑ c, (s.pc c).work (p.ncons c) (p.nwrites c)

/-- There is room in the queue for a connection that has not been made. -/
theorem Inv.queue_room [Fintype C] (h : Inv p s) (hback : ∑ c, p.ncons c ≤ p.backlog) {c : C} {i : Nat}
    (hpc : s.pc c = .opening i) (hi : i < p.ncons c) : s.pending.length < p.backlog := by
  have hmem : (c, i) ∈ places p.ncons := (mem_places p.ncons).mpr hi
  have hle := nopen_add_pending_le (S := (places p.ncons).erase (c, i)) h fun y hy ↦ by
    refine Finset.mem_erase.mpr ⟨?_, (mem_places p.ncons).mpr (h.attached_lt hy)⟩
    rintro rfl
    have hconn := h.attached.connected _ hy
    unfold State.Connected at hconn
    rw [hpc] at hconn
    exact Nat.lt_irrefl i hconn
  have hcard := Finset.card_erase_add_one hmem
  rw [card_places] at hcard
  rw [h.server.nopen_eq] at hle
  omega

theorem full_step (hn : ¬s.server.nopen < s.server.ncons) (hs : ServerStep p s e t) :
    t.pending = s.pending := by
  cases hs with
  | accept _ hstep =>
    cases hstep with
    | accept _ _ hroom => exact absurd hroom hn
  | quiet => rfl
  | select => rfl
  | receive => rfl
  | hangup => rfl

/-- How many connections a client can keep while it waits on another one. -/
def Setup.held (p : Setup C) (c : C) : Nat := if 0 < p.nwrites c then p.ncons c - 1 else 0

/-- Client `c` waits for a response on a connection that is still in the queue. -/
def State.WaitsInQueue (s : State C) (c : C) : Prop :=
  ∃ k j, s.pc c = .receiving k j ∧ (c, j) ∈ s.pending ∧ s.down (c, j) = []

/-- All the slots belong to clients that wait for one. -/
structure Stuck (p : Setup C) (s : State C) : Prop where
  inv : Inv p s
  full : ¬s.server.nopen < s.server.ncons
  waits : ∃ c, s.WaitsInQueue c
  owners : ∀ d y, s.owner d = some y → s.WaitsInQueue y.1

theorem waitsInQueue_step (h : Inv p s) (hfull : ¬s.server.nopen < s.server.ncons) {c : C}
    (hc : s.WaitsInQueue c) (hs : Step p s e t) : t.WaitsInQueue c := by
  obtain ⟨k, j, hrecv, hmem, hnone⟩ := hc
  rcases hs with hs | hs
  · refine ⟨k, j, by rw [(server_fixed hs).1]; exact hrecv, by rw [full_step hfull hs]; exact hmem, ?_⟩
    cases hs with
    | @receive ci fd y n v hy hpos hn hlen hstep =>
      show Function.update s.down y _ (c, j) = []
      rw [Function.update_of_ne]
      · exact hnone
      · rintro rfl
        exact h.attached.queued_free _ hmem fd hy
    | quiet => exact hnone
    | select => exact hnone
    | accept => exact hnone
    | hangup => exact hnone
  · obtain ⟨-, -, ⟨l, hl⟩, hpc, hdown⟩ := Waiting.client_step ⟨h, hrecv, hnone⟩ hs
    exact ⟨k, j, hpc, hl ▸ List.mem_append_left l hmem, hdown⟩

theorem Stuck.step (h : Stuck p s) (hs : Step p s e t) : Stuck p t := by
  have hkeep : ∀ c, s.WaitsInQueue c → t.WaitsInQueue c :=
    fun c hc ↦ waitsInQueue_step h.inv h.full hc hs
  suffices hsame : ¬t.server.nopen < t.server.ncons ∧ ∀ d y, t.owner d = some y → s.owner d = some y from
    ⟨inv_step h.inv hs, hsame.1, h.waits.imp hkeep, fun d y hd ↦ hkeep _ (h.owners d y (hsame.2 d y hd))⟩
  rcases hs with hs | hs
  · cases hs with
    | @quiet ev v he hstep =>
      refine ⟨?_, fun _ _ ↦ id⟩
      show ¬v.nopen < v.ncons
      cases hstep with
      | enter => rw [Select.enter_eq]; exact h.full
      | noAccept => exact h.full
      | pass => exact h.full
      | wrap => exact h.full
      | select => exact h.full
      | accept => rcases he with he | he | he | he <;> cases he
      | handle => rcases he with he | he | he | he <;> cases he
    | select hstep =>
      cases hstep with
      | select => exact ⟨h.full, fun _ _ ↦ id⟩
    | accept _ hstep =>
      cases hstep with
      | accept _ _ hn => exact absurd hn h.full
    | receive _ hpos _ _ hstep =>
      cases hstep with
      | handle =>
        rw [serve_clients_pos (Int.natCast_pos.mpr hpos)]
        exact ⟨h.full, fun _ _ ↦ id⟩
    | hangup hy hc =>
      obtain ⟨k, j, hrecv, -, -⟩ := h.owners _ _ hy
      have hclosed := h.inv.closed_pc _ hc
      rw [hrecv] at hclosed
      exact hclosed.elim
  · cases hs <;> exact ⟨h.full, fun _ _ ↦ id⟩

theorem Stuck.run (h : Stuck p s) {es : List (Event C)} (hr : Run (Step p) s es t) : ∃ c, t.pc c ≠ .exited := by
  have ht : Stuck p t := hr.state_invariant (Stuck p) h fun _ _ _ hi hs ↦ hi.step hs
  obtain ⟨c, k, j, hrecv, -⟩ := ht.waits
  exact ⟨c, by rw [hrecv]; nofun⟩

/-! ## A run to that point -/

/-- A client with something to send on its way to wait on its last connection. -/
def State.Heading (p : Setup C) (s : State C) (c : C) : Prop :=
  s.pc c = .opening (p.ncons c - 1) ∨ (c, p.ncons c - 1) ∈ s.pending ∧
    (s.pc c = .opening (p.ncons c) ∨ s.pc c = .writing 0 ∨ s.pc c = .receiving 0 (p.ncons c - 1))

/-- All slots are taken by clients that have something to send, and nothing is on its way to a client. -/
structure Filled (p : Setup C) (s : State C) : Prop where
  inv : Inv p s
  full : ¬s.server.nopen < s.server.ncons
  nothing : ∀ x, s.down x = []
  owners : ∀ d y, s.owner d = some y → 0 < p.nwrites y.1
  heading : ∀ c, 0 < p.nwrites c → s.Heading p c

theorem Filled.client_step (h : Filled p s) {c : C} {pc : Pc} (hs : ClientStep p s e t)
    (hserver : t.server = s.server) (howner : t.owner = s.owner) (hdown : t.down = s.down)
    (hq : ∃ l, t.pending = s.pending ++ l) (hpc : t.pc = Function.update s.pc c pc) (hc : t.Heading p c) :
    Filled p t := by
  refine ⟨inv_step h.inv (Or.inr hs), by rw [hserver]; exact h.full, by rw [hdown]; exact h.nothing,
    by rw [howner]; exact h.owners, fun d hd ↦ ?_⟩
  by_cases hdc : d = c
  · rw [hdc]
    exact hc
  · obtain ⟨l, hl⟩ := hq
    have hold := h.heading d hd
    unfold State.Heading at hold ⊢
    rw [hpc, Function.update_of_ne hdc, hl]
    exact hold.imp_right fun hw ↦ ⟨List.mem_append_left l hw.1, hw.2⟩

/-- A client that is not there yet takes its next step. -/
theorem Filled.next [Fintype C] (hback : ∑ c, p.ncons c ≤ p.backlog) (h : Filled p s) {c : C}
    (hcons : 0 < p.ncons c) (hw : 0 < p.nwrites c) (hc : ¬s.WaitsInQueue c) :
    ∃ e t, ClientStep p s e t ∧ Filled p t := by
  have hlast : p.ncons c - 1 + 1 = p.ncons c := Nat.sub_add_cancel hcons
  have hsame : ∃ l, s.pending = s.pending ++ l := ⟨[], (List.append_nil _).symm⟩
  rcases h.heading c hw with hat | ⟨hmem, hat | hat | hat⟩
  · have hlt : p.ncons c - 1 < p.ncons c := Nat.sub_lt hcons Nat.one_pos
    have hs : ClientStep p s (.connect c (p.ncons c - 1)) _ :=
      .connect hat hlt (h.inv.queue_room hback hat hlt)
    refine ⟨_, _, hs, h.client_step hs rfl rfl rfl ⟨_, rfl⟩ rfl (Or.inr ⟨?_, Or.inl ?_⟩)⟩
    · exact List.mem_append_right _ (List.mem_singleton_self _)
    · rw [← hlast]
      exact Function.update_self ..
  · have hs : ClientStep p s (.opened c) _ := .opened hat
    refine ⟨_, _, hs, h.client_step hs rfl rfl rfl hsame rfl (Or.inr ⟨hmem, Or.inr (Or.inl ?_)⟩)⟩
    exact Function.update_self ..
  · have hs : ClientStep p s (.send c 0 (p.ncons c - 1)) _ :=
      .send hat hw (Nat.sub_lt hcons Nat.one_pos)
    refine ⟨_, _, hs, h.client_step hs rfl rfl rfl hsame rfl (Or.inr ⟨hmem, Or.inr (Or.inr ?_)⟩)⟩
    exact Function.update_self ..
  · exact absurd ⟨0, _, hat, hmem, h.nothing _⟩ hc

end OK210Drivers.Server.Lab53
