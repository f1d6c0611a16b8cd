import Mathlib.Combinatorics.Enumerative.DoubleCounting
import OK210Drivers.Server.Conversation

/-!
# The server answers

When the clients together open no more connections than the server has slots for, a client that waits for
a response has it after a bounded number of steps of the server, whatever the other clients do.
-/

open Library

namespace OK210Drivers.Server.Lab53

variable {C : Type} {p : Setup C} {s t : State C} {e : Event C} {x : Conn C}

/-! ## How many connections there are -/

/-- The connections with the places `F c` of each client `c`. -/
def pairs [Fintype C] (F : C → Finset Nat) : Finset (Conn C) :=
  (Finset.univ.sigma F).map (Equiv.sigmaEquivProd C Nat).toEmbedding

theorem mem_pairs [Fintype C] (F : C → Finset Nat) : x ∈ pairs F ↔ x.2 ∈ F x.1 := by
  simp only [pairs, Finset.mem_map_equiv, Finset.mem_sigma, Finset.mem_univ, true_and]
  rfl

theorem card_pairs [Fintype C] (F : C → Finset Nat) : (pairs F).card = ∑ c, (F c).card := by
  simp [pairs]

/-- The first `n c` connections of each client `c`. -/
def places [Fintype C] (n : C → Nat) : Finset (Conn C) := pairs fun c ↦ Finset.range (n c)

theorem mem_places [Fintype C] (n : C → Nat) : x ∈ places n ↔ x.2 < n x.1 :=
  (mem_pairs _).trans Finset.mem_range

theorem card_places [Fintype C] (n : C → Nat) : (places n).card = ∑ c, n c := by
  simp [places, card_pairs]

/-- The server's slots are taken by connections of its own. -/
theorem nopen_le_card (h : Inv p s) {S : Finset (Conn C)} (hS : ∀ d y, s.owner d = some y → y ∈ S) :
    s.server.nopen ≤ S.card := by
  rw [h.server.nopen_eq]
  refine Int.ofNat_le.mpr (Finset.card_le_card_of_forall_subsingleton
    (fun m y ↦ s.owner (s.server.cd m) = some y) (fun m hm ↦ ?_) fun y _ ↦ ?_)
  · obtain ⟨hlt, hopen⟩ := mem_usedSlots.mp hm
    obtain ⟨y, hy⟩ := (h.attached.owned _).mpr (mem_clients.mpr ⟨m, hlt, hopen, rfl⟩)
    exact ⟨y, hS _ y hy, hy⟩
  · rintro m ⟨hm, hmy⟩ m' ⟨hm', hmy'⟩
    obtain ⟨hlt, hopen⟩ := mem_usedSlots.mp hm
    obtain ⟨hlt', hopen'⟩ := mem_usedSlots.mp hm'
    exact h.server.distinct.eq hlt hopen hlt' hopen' (h.attached.owner_inj _ _ y hmy hmy')

variable [DecidableEq C]

/-- What is in the queue has no slot yet. -/
theorem nopen_add_pending_le (h : Inv p s) {S : Finset (Conn C)}
    (hS : ∀ y, (y ∈ s.pending ∨ ∃ d, s.owner d = some y) → y ∈ S) :
    s.server.nopen + s.pending.length ≤ S.card := by
  have hsub : s.pending.toFinset ⊆ S := fun y hy ↦ hS y (Or.inl (List.mem_toFinset.mp hy))
  have hcard : s.pending.toFinset.card = s.pending.length :=
    List.toFinset_card_of_nodup h.attached.queued_once
  have hle := nopen_le_card (S := S \ s.pending.toFinset) h fun d y hy ↦ by
    refine Finset.mem_sdiff.mpr ⟨hS y (Or.inr ⟨d, hy⟩), fun hm ↦ ?_⟩
    exact h.attached.queued_free y (List.mem_toFinset.mp hm) d hy
  have hcount := Finset.card_sdiff_add_card_eq_card hsub
  omega

theorem Pc.Connected.lt {pc : Pc} {n w j : Nat} (h : pc.Connected n j) (hr : pc.InRange n w) : j < n := by
  cases pc with
  | opening i => exact lt_of_lt_of_le h hr
  | writing k => exact h
  | receiving k i => exact h
  | closing i => exact h
  | exited => exact h

omit [DecidableEq C] in
theorem Inv.attached_lt (h : Inv p s) {y : Conn C} (hy : y ∈ s.pending ∨ ∃ d, s.owner d = some y) :
    y.2 < p.ncons y.1 := (h.attached.connected y hy).lt (h.in_range y.1)

/-- The server has room for what waits in its queue. -/
theorem Inv.room [Fintype C] (h : Inv p s) (hsum : ∑ c, p.ncons c ≤ s.server.ncons) (hq : s.pending ≠ []) :
    s.server.nopen < s.server.ncons := by
  have hle := nopen_add_pending_le h fun y hy ↦ (mem_places p.ncons).mpr (h.attached_lt hy)
  rw [card_places] at hle
  have hpos := List.length_pos_iff.mpr hq
  omega

/-! ## The next step of the server -/

open Classical in
/-- What `select` reports. -/
noncomputable def State.ready (s : State C) : Finset Int := s.server.testset.filter fun d ↦ s.Readable d

/-- How far a place of the loop is from `accept`; `bit` says whether `select` has reported the listening
socket. -/
def queueLoopRank (n : Nat) (bit : Bool) : Select.Pc → Nat
  | .listening => if bit = true then 0 else n + 4
  | .calling => 1
  | .top => 2
  | .serving i => n - i + 3

theorem queueLoopRank_serving {n i : Nat} (bit : Bool) (hi : i < n) :
    queueLoopRank n bit (.serving (i + 1)) < queueLoopRank n bit (.serving i) := by
  simp only [queueLoopRank]
  omega

/-- How far the server is from the next call of `accept`. -/
def queueRank (v : Select.State) : Nat := queueLoopRank v.ncons (decide (v.sd ∈ v.testset)) v.pc

theorem serve_fixed (v : Select.State) (i : Nat) (count : Int) :
    (Select.serve v i count).ncons = v.ncons ∧ (Select.serve v i count).sd = v.sd ∧
      (Select.serve v i count).nopen ≤ v.nopen := by
  obtain ⟨m, -, heq⟩ := Select.terminate_client_eq v i
  unfold Select.serve
  split
  · rw [heq]
    exact ⟨rfl, rfl, Int.sub_le_self _ (by decide)⟩
  · exact ⟨rfl, rfl, le_rfl⟩

theorem queueRank_serve {v : Select.State} {i : Nat} (count : Int) (hpc : v.pc = .serving i)
    (hi : i < v.ncons) : queueRank (Select.serve v i count) < queueRank v := by
  obtain ⟨hn, hsd, -⟩ := serve_fixed v i count
  unfold queueRank
  rw [hn, hsd, Select.serve_testset, Select.serve_pc, hpc]
  exact queueLoopRank_serving _ hi

/-- The connection `x` has slot `m` of the server. -/
structure State.Slot (s : State C) (x : Conn C) (m : Nat) : Prop where
  lt : m < s.server.ncons
  opened : s.server.isopen m = true
  owner : s.owner (s.server.cd m) = some x

/-- While there is room, a step of the server brings it nearer to `accept` or takes the first connection
of the queue. -/
theorem queue_step (h : Inv p s) (hn : s.server.nopen < s.server.ncons) (hq : s.pending ≠ [])
    (hs : ServerStep p s e t) :
    (t.pending = s.pending ∧ t.server.nopen ≤ s.server.nopen ∧ queueRank t.server < queueRank s.server) ∨
      t.server.pc = .serving 0 ∧ ∃ y m, s.pending = y :: t.pending ∧ t.Slot y m := by
  have hplace := h.place
  unfold State.Place at hplace
  cases hs with
  | @quiet ev v he hstep =>
    refine Or.inl ⟨rfl, ?_⟩
    show v.nopen ≤ s.server.nopen ∧ queueRank v < queueRank s.server
    cases hstep with
    | enter hpc =>
      rw [Select.enter_eq]
      refine ⟨le_rfl, ?_⟩
      simp only [queueRank, hpc]
      exact Nat.lt_succ_self 1
    | noAccept hpc hno =>
      refine ⟨le_rfl, ?_⟩
      simp only [queueRank, hpc, decide_eq_false fun hsd ↦ hno ⟨hsd, hn⟩]
      exact Nat.lt_succ_self _
    | pass hpc hi hr =>
      refine ⟨le_rfl, ?_⟩
      simp only [queueRank, hpc]
      exact queueLoopRank_serving _ hi
    | wrap hpc hi =>
      refine ⟨le_rfl, ?_⟩
      simp only [queueRank, hpc]
      exact Nat.lt_of_lt_of_le (Nat.lt_succ_self 2) (Nat.le_add_left ..)
    | select => rcases he with he | he | he | he <;> cases he
    | accept => rcases he with he | he | he | he <;> cases he
    | handle => rcases he with he | he | he | he <;> cases he
  | @select ready v hstep hready hsome =>
    refine Or.inl ⟨rfl, ?_⟩
    cases hstep with
    | select hpc hr =>
      refine ⟨le_rfl, ?_⟩
      rw [hpc] at hplace
      have hsd : s.server.sd ∈ ready := by
        refine (hready _).mpr ⟨?_, Or.inl ⟨rfl, hq⟩⟩
        rw [hplace, h.server.fdset_eq]
        exact Finset.mem_insert_self ..
      simp only [queueRank, hpc, decide_eq_true hsd]
      exact Nat.zero_lt_one
  | @accept y rest ci fd v hq hstep =>
    refine Or.inr ?_
    cases hstep with
    | accept hpc hsd _ hacc ha =>
      obtain ⟨rfl, rfl⟩ := Select.accept_connection_eq ha
      refine ⟨rfl, y, _, hq, h.server.slot_lt hn, Function.update_self .., ?_⟩
      simp only [Function.update_self]
  | receive _ _ _ _ hstep =>
    refine Or.inl ⟨rfl, ?_⟩
    cases hstep with
    | handle hpc hi _ => exact ⟨(serve_fixed ..).2.2, queueRank_serve _ hpc hi⟩
  | hangup _ _ _ hstep =>
    refine Or.inl ⟨rfl, ?_⟩
    cases hstep with
    | handle hpc hi _ => exact ⟨(serve_fixed ..).2.2, queueRank_serve _ hpc hi⟩

/-! ## The answer -/

/-- How far a place of the loop is from turn `m` with something to do; `bit` says whether `select` has
reported it. -/
def answerLoopRank (n m : Nat) (bit : Bool) : Select.Pc → Nat
  | .serving i => if i ≤ m ∧ bit = true then m - i else n - i + m + 4
  | .listening => if bit = true then m + 1 else n + m + 5
  | .calling => m + 2
  | .top => m + 3

theorem answerLoopRank_serving {n m i : Nat} {bit : Bool} (hi : i < n) (hlast : i = m → bit = false) :
    answerLoopRank n m bit (.serving (i + 1)) < answerLoopRank n m bit (.serving i) := by
  cases bit with
  | false =>
    simp only [answerLoopRank, Bool.false_eq_true, and_false, if_false]
    omega
  | true =>
    have hne : i ≠ m := fun he ↦ absurd (hlast he) (by decide)
    simp only [answerLoopRank, and_true]
    split
    · rw [if_pos (by omega)]
      omega
    · split
      · omega
      · omega

theorem answerLoopRank_listening (n m : Nat) (bit : Bool) :
    answerLoopRank n m bit (.serving 0) < answerLoopRank n m bit .listening := by
  cases bit with
  | false =>
    simp only [answerLoopRank, Bool.false_eq_true, and_false, if_false]
    omega
  | true => simp [answerLoopRank]

theorem answerLoopRank_wrap {n m i : Nat} {bit bit' : Bool} (hi : ¬i < n) (hm : m < n) :
    answerLoopRank n m bit' .top < answerLoopRank n m bit (.serving i) := by
  simp only [answerLoopRank]
  rw [if_neg fun hb ↦ hi (lt_of_le_of_lt hb.1 hm)]
  omega

theorem answerLoopRank_le {n m : Nat} (hm : m < n) (bit : Bool) (pc : Select.Pc) :
    answerLoopRank n m bit pc ≤ 2 * n + 4 := by
  unfold answerLoopRank
  split
  · split <;> omega
  · split <;> omega
  all_goals omega

/-- How far the server is from serving slot `m`. -/
def answerRank (m : Nat) (v : Select.State) : Nat :=
  answerLoopRank v.ncons m (decide (v.cd m ∈ v.testset)) v.pc

theorem serve_tables (v : Select.State) (i : Nat) (count : Int) {m : Nat} (hm : m ≠ i) :
    (Select.serve v i count).isopen m = v.isopen m ∧ (Select.serve v i count).cd = v.cd := by
  obtain ⟨_, -, heq⟩ := Select.terminate_client_eq v i
  unfold Select.serve
  split
  · rw [heq]
    exact ⟨Function.update_of_ne hm .., rfl⟩
  · exact ⟨rfl, rfl⟩

theorem answerRank_serve {v : Select.State} {m i : Nat} (count : Int) (hpc : v.pc = .serving i)
    (hi : i < v.ncons) (hm : m ≠ i) : answerRank m (Select.serve v i count) < answerRank m v := by
  obtain ⟨hn, -⟩ := serve_fixed v i count
  obtain ⟨-, hcd⟩ := serve_tables v i count hm
  unfold answerRank
  rw [hn, hcd, Select.serve_testset, Select.serve_pc, hpc]
  exact answerLoopRank_serving hi fun he ↦ absurd he.symm hm

omit [DecidableEq C] in
theorem State.Slot.in_fdset {m : Nat} (h : Inv p s) (hm : s.Slot x m) : s.server.cd m ∈ s.server.fdset := by
  rw [h.server.fdset_eq]
  exact Finset.mem_insert_of_mem (mem_clients.mpr ⟨m, hm.lt, hm.opened, rfl⟩)

omit [DecidableEq C] in
theorem State.Slot.served {m i : Nat} {v : Select.State} {count : Int} (h : Inv p s) (hm : s.Slot x m)
    (hi : i < s.server.ncons) (hr : Select.readable s.server i = true) (hne : m ≠ i)
    (hv : v = Select.serve s.server i count) :
    m < v.ncons ∧ v.isopen m = true ∧ v.cd m = s.server.cd m ∧ s.server.cd m ≠ s.server.cd i := by
  obtain ⟨hop, hcd⟩ := serve_tables s.server i count hne
  obtain ⟨hn, -⟩ := serve_fixed s.server i count
  refine ⟨by rw [hv, hn]; exact hm.lt, by rw [hv, hop]; exact hm.opened, by rw [hv, hcd], fun he ↦ ?_⟩
  exact hne (h.server.distinct.eq hm.lt hm.opened hi (Select.readable_iff.mp hr).1 he)

/-- Until it serves slot `m`, a step of the server brings it nearer to doing so. -/
theorem slot_step (h : Inv p s) {m : Nat} (hm : s.Slot x m) (hdue : s.up x ≠ [] ∨ s.closed x = true)
    (hs : ServerStep p s e t) :
    (s.server.pc = .serving m ∧ Select.readable s.server m = true) ∨
      t.Slot x m ∧ answerRank m t.server < answerRank m s.server := by
  have hplace := h.place
  unfold State.Place at hplace
  cases hs with
  | @quiet ev v he hstep =>
    refine Or.inr ?_
    show State.Slot _ x m ∧ answerRank m v < answerRank m s.server
    cases hstep with
    | enter hpc =>
      rw [Select.enter_eq]
      refine ⟨⟨hm.lt, hm.opened, hm.owner⟩, ?_⟩
      simp only [answerRank, hpc]
      exact Nat.lt_succ_self _
    | noAccept hpc hno =>
      refine ⟨⟨hm.lt, hm.opened, hm.owner⟩, ?_⟩
      simp only [answerRank, hpc]
      exact answerLoopRank_listening ..
    | @pass i hpc hi hr =>
      refine ⟨⟨hm.lt, hm.opened, hm.owner⟩, ?_⟩
      simp only [answerRank, hpc]
      refine answerLoopRank_serving hi ?_
      rintro rfl
      refine decide_eq_false fun hbit ↦ ?_
      rw [Select.readable_iff.mpr ⟨hm.opened, hbit⟩] at hr
      cases hr
    | wrap hpc hi =>
      refine ⟨⟨hm.lt, hm.opened, hm.owner⟩, ?_⟩
      simp only [answerRank, hpc]
      exact answerLoopRank_wrap hi hm.lt
    | select => rcases he with he | he | he | he <;> cases he
    | accept => rcases he with he | he | he | he <;> cases he
    | handle => rcases he with he | he | he | he <;> cases he
  | @select ready v hstep hready hsome =>
    refine Or.inr ?_
    cases hstep with
    | select hpc hr =>
      rw [hpc] at hplace
      have hbit : s.server.cd m ∈ ready :=
        (hready _).mpr ⟨hplace ▸ hm.in_fdset h, Or.inr ⟨x, hm.owner, hdue⟩⟩
      refine ⟨⟨hm.lt, hm.opened, hm.owner⟩, ?_⟩
      simp only [answerRank, hpc, decide_eq_true hbit]
      exact Nat.lt_succ_self _
  | @accept y rest ci fd v hq hstep =>
    refine Or.inr ?_
    cases hstep with
    | accept hpc hsd hn hacc ha =>
      obtain ⟨rfl, rfl⟩ := Select.accept_connection_eq ha
      have hne : m ≠ firstFree s.server.isopen s.server.ncons := by
        rintro rfl
        have hfree := firstFree_free (h.server.slot_lt hn)
        rw [hm.opened] at hfree
        cases hfree
      have hfd : s.server.cd m ≠ fd := by
        rintro rfl
        exact accept_fresh _ _ hacc (h.server.fdset_open (hm.in_fdset h))
      refine ⟨⟨hm.lt, (Function.update_of_ne hne ..).trans hm.opened, ?_⟩, ?_⟩
      · simp only [Function.update_of_ne hne, Function.update_of_ne hfd]
        exact hm.owner
      · simp only [answerRank, hpc, Function.update_of_ne hne]
        exact answerLoopRank_listening ..
  | @receive ci fd y n v hy hpos hn hlen hstep =>
    cases hstep with
    | handle hpc hi hr =>
      by_cases him : m = ci
      · exact Or.inl ⟨him ▸ hpc, him ▸ hr⟩
      obtain ⟨hlt, hop, hcd, -⟩ := hm.served h hi hr him rfl
      refine Or.inr ⟨⟨hlt, hop, ?_⟩, answerRank_serve _ hpc hi him⟩
      simp only [hcd]
      exact hm.owner
  | @hangup ci fd y count v hy hc hle hstep =>
    cases hstep with
    | handle hpc hi hr =>
      by_cases him : m = ci
      · exact Or.inl ⟨him ▸ hpc, him ▸ hr⟩
      obtain ⟨hlt, hop, hcd, hne⟩ := hm.served h hi hr him rfl
      refine Or.inr ⟨⟨hlt, hop, ?_⟩, answerRank_serve _ hpc hi him⟩
      simp only [hcd, Function.update_of_ne hne]
      exact hm.owner

/-- A step of the server brings it nearer to slot `m`, or it answers there. -/
theorem answer_step (h : Inv p s) {m : Nat} (hm : s.Slot x m) (hup : s.up x ≠ []) (hopen : s.closed x = false)
    (hs : ServerStep p s e t) :
    t.down x ≠ [] ∨ t.Slot x m ∧ answerRank m t.server < answerRank m s.server := by
  rcases slot_step h hm (Or.inl hup) hs with ⟨hat, hready⟩ | hnear
  case inr => exact Or.inr hnear
  refine Or.inl ?_
  have hturn : ∀ {i : Nat}, s.server.pc = .serving i → i = m := by
    intro i hi
    cases hat.symm.trans hi
    rfl
  cases hs with
  | quiet he hstep =>
    cases hstep with
    | enter hpc => cases hat.symm.trans hpc
    | noAccept hpc => cases hat.symm.trans hpc
    | pass hpc hi hr =>
      obtain rfl := hturn hpc
      cases hready.symm.trans hr
    | wrap hpc hi =>
      obtain rfl := hturn hpc
      exact absurd hm.lt hi
    | select => rcases he with he | he | he | he <;> cases he
    | accept => rcases he with he | he | he | he <;> cases he
    | handle => rcases he with he | he | he | he <;> cases he
  | select hstep =>
    cases hstep with
    | select hpc => cases hat.symm.trans hpc
  | accept _ hstep =>
    cases hstep with
    | accept hpc => cases hat.symm.trans hpc
  | receive hy _ _ _ hstep =>
    cases hstep with
    | handle hpc =>
      obtain rfl := hturn hpc
      obtain rfl := Option.some.inj (hm.owner.symm.trans hy)
      simp only [Function.update_self]
      exact List.append_ne_nil_of_right_ne_nil _ (response_ne_nil p)
  | hangup hy hc _ hstep =>
    cases hstep with
    | handle hpc =>
      obtain rfl := hturn hpc
      obtain rfl := Option.some.inj (hm.owner.symm.trans hy)
      cases hopen.symm.trans hc

/-! ## Waiting for a response -/

/-- Client `c` has sent request `k` on connection `j` and nothing has come back. -/
structure Waiting (p : Setup C) (c : C) (k j : Nat) (s : State C) : Prop where
  inv : Inv p s
  receiving : s.pc c = .receiving k j
  nothing : s.down (c, j) = []

/-- The response on `x` is at most `n` steps of the server away. -/
inductive Awaits (x : Conn C) (n : Nat) (s : State C) : Prop
  | queued (q : Nat) (hq : s.pending[q]? = some x)
      (hle : q * (s.server.ncons + 5) + queueRank s.server + (2 * s.server.ncons + 5) ≤ n)
  | slot (m : Nat) (hm : s.Slot x m) (hle : answerRank m s.server ≤ n)

section

variable {c : C} {k j n : Nat}

omit [DecidableEq C] in
theorem Waiting.up_ne (h : Waiting p c k j s) : s.up (c, j) ≠ [] :=
  (h.inv.waiting c k j h.receiving).resolve_right fun hne ↦ hne h.nothing

omit [DecidableEq C] in
theorem Waiting.open (h : Waiting p c k j s) : s.closed (c, j) = false := by
  refine Bool.eq_false_of_not_eq_true fun hc ↦ ?_
  have hclosed := h.inv.closed_pc _ hc
  rw [h.receiving] at hclosed
  exact hclosed

theorem server_fixed (hs : ServerStep p s e t) :
    t.pc = s.pc ∧ t.closed = s.closed ∧ t.server.ncons = s.server.ncons := by
  cases hs with
  | quiet _ hstep => exact ⟨rfl, rfl, (Select.step_fixed hstep).1⟩
  | select hstep _ _ => exact ⟨rfl, rfl, (Select.step_fixed hstep).1⟩
  | accept _ hstep => exact ⟨rfl, rfl, (Select.step_fixed hstep).1⟩
  | receive _ _ _ _ hstep => exact ⟨rfl, rfl, (Select.step_fixed hstep).1⟩
  | hangup _ _ _ hstep => exact ⟨rfl, rfl, (Select.step_fixed hstep).1⟩

theorem Awaits.server_step (hw : Waiting p c k j s) (hroom : s.pending ≠ [] → s.server.nopen < s.server.ncons)
    (h : Awaits (c, j) n s) (hs : ServerStep p s e t) :
    t.down (c, j) ≠ [] ∨ ∃ m, Awaits (c, j) m t ∧ m + 1 ≤ n := by
  have hn := (server_fixed hs).2.2
  cases h with
  | queued q hq hle =>
    have hne : s.pending ≠ [] := by
      rintro he
      rw [he] at hq
      cases hq
    refine Or.inr ?_
    rcases queue_step hw.inv (hroom hne) hne hs with ⟨hsame, -, hlt⟩ | ⟨hpc, y, m, htail, hslot⟩
    · exact ⟨_, .queued q (hsame ▸ hq) le_rfl, by rw [hn]; omega⟩
    rw [htail] at hq
    cases q with
    | zero =>
      obtain rfl : y = (c, j) := by simpa using hq
      refine ⟨_, .slot m hslot le_rfl, ?_⟩
      have hrank := answerLoopRank_le hslot.lt (decide (t.server.cd m ∈ t.server.testset)) t.server.pc
      have heq : answerRank m t.server ≤ 2 * t.server.ncons + 4 := hrank
      omega
    | succ q =>
      refine ⟨_, .queued q (by simpa using hq) le_rfl, ?_⟩
      have hrank : queueRank t.server = t.server.ncons + 3 := by
        unfold queueRank
        rw [hpc]
        rfl
      rw [hrank, hn]
      have hmul : (q + 1) * (s.server.ncons + 5) = q * (s.server.ncons + 5) + (s.server.ncons + 5) :=
        Nat.succ_mul ..
      omega
  | slot m hm hle =>
    refine (answer_step hw.inv hm hw.up_ne hw.open hs).imp_right fun ⟨hslot, hlt⟩ ↦ ?_
    exact ⟨_, .slot m hslot le_rfl, by omega⟩

/-- The calls of the clients leave a client that waits where it is. -/
theorem Waiting.client_step (hw : Waiting p c k j s) (hs : ClientStep p s e t) :
    t.server = s.server ∧ t.owner = s.owner ∧ (∃ l, t.pending = s.pending ++ l) ∧
      t.pc c = .receiving k j ∧ t.down (c, j) = [] := by
  have hkeep : ∀ {c' : C} {pc' : Pc}, c' ≠ c → Function.update s.pc c' pc' c = .receiving k j := by
    intro c' pc' hne
    rw [Function.update_of_ne hne.symm, hw.receiving]
  have hother : ∀ {c' : C} {pc : Pc}, s.pc c' = pc → pc ≠ .receiving k j → c' ≠ c := by
    rintro c' pc hc' hpc rfl
    exact hpc (hc'.symm.trans hw.receiving)
  have hsame : s.pending = s.pending ++ [] := (List.append_nil _).symm
  cases hs with
  | connect hpc => exact ⟨rfl, rfl, ⟨_, rfl⟩, hkeep (hother hpc nofun), hw.nothing⟩
  | opened hpc => exact ⟨rfl, rfl, ⟨[], hsame⟩, hkeep (hother hpc nofun), hw.nothing⟩
  | send hpc => exact ⟨rfl, rfl, ⟨[], hsame⟩, hkeep (hother hpc nofun), hw.nothing⟩
  | @recv c' k' j' n hpc hpos hn hlen =>
    have hne : c' ≠ c := by
      rintro rfl
      obtain ⟨rfl, rfl⟩ : k' = k ∧ j' = j := by simpa using hpc.symm.trans hw.receiving
      rw [hw.nothing] at hlen
      exact Nat.not_lt.mpr hlen hpos
    refine ⟨rfl, rfl, ⟨[], hsame⟩, hkeep hne, ?_⟩
    show Function.update s.down (c', j') _ (c, j) = []
    rw [Function.update_of_ne fun he ↦ hne (congrArg Prod.fst he).symm]
    exact hw.nothing
  | written hpc => exact ⟨rfl, rfl, ⟨[], hsame⟩, hkeep (hother hpc nofun), hw.nothing⟩
  | close hpc => exact ⟨rfl, rfl, ⟨[], hsame⟩, hkeep (hother hpc nofun), hw.nothing⟩
  | exit hpc => exact ⟨rfl, rfl, ⟨[], hsame⟩, hkeep (hother hpc nofun), hw.nothing⟩

theorem Awaits.client_step (hw : Waiting p c k j s) (h : Awaits (c, j) n s) (hs : ClientStep p s e t) :
    Awaits (c, j) n t := by
  obtain ⟨hserver, howner, ⟨l, hl⟩, -, -⟩ := hw.client_step hs
  cases h with
  | queued q hq hle =>
    refine .queued q ?_ (by rw [hserver]; exact hle)
    rw [hl, List.getElem?_append_left (List.getElem?_eq_some_iff.mp hq).1]
    exact hq
  | slot m hm hle =>
    refine .slot m ⟨?_, ?_, ?_⟩ (by rw [hserver]; exact hle)
    · rw [hserver]; exact hm.lt
    · rw [hserver]; exact hm.opened
    · rw [hserver, howner]; exact hm.owner

end

end OK210Drivers.Server.Lab53
