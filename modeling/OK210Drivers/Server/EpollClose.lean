import OK210Drivers.Library.Runs
import OK210Drivers.Server.Epoll

/-!
# The epoll server closes the connection it means to close

`terminate_client` searches `cd` for the descriptor and never looks at `isopen`.  The search is right
because slots and descriptors are both given out lowest first: slot `i` only ever holds the `i`-th
descriptor that was not open when the loop was entered, and the slots used so far come before those
that `malloc` left uninitialised.
-/

open Library

namespace OK210Drivers.Server.Epoll

def State.clients (s : State) : Finset Int := held s.isopen s.cd s.ncons

/-- The blocks allocated for the open connections, by slot, as the history tells. -/
def owner_step (own : Nat → Option Addr) : Event → Nat → Option Addr
  | .accept ci _ tptr => Function.update own ci (some tptr)
  | .close _ (some ci) _ => Function.update own ci none
  | _ => own

def owners (es : List Event) : Nat → Option Addr := es.foldl owner_step fun _ ↦ none

theorem owners_snoc (es : List Event) (e : Event) : owners (es ++ [e]) = owner_step (owners es) e := by
  rw [owners, List.foldl_append]
  rfl

-- A block that is still needed: the listening socket's or an open connection's.
def Live (lst : Addr) (own : Nat → Option Addr) (a : Addr) : Prop :=
  a = lst ∨ ∃ ci, own ci = some a

-- The events from `i` on that are still to be dispatched, each with a block of its own.
structure Pending (lst : Addr) (own : Nat → Option Addr) (ep_event : Nat → Option Addr) (i n : Nat) :
    Prop where
  live : ∀ j, i ≤ j → j < n → ∃ a, ep_event j = some a ∧ Live lst own a
  inj : ∀ j k, i ≤ j → j < n → i ≤ k → k < n → ep_event j = ep_event k → j = k

-- The slots used so far are the first `k`, and each keeps the descriptor of its number.
def Touched (base : Finset Int) (isopen : Nat → Bool) (cd : Nat → Int) (ncons : Nat) : Prop :=
  ∃ k, (∀ i < k, cd i = spare base i) ∧ ∀ i < ncons, isopen i = true → i < k

/-- `base` are the descriptors open when the loop is entered, `lst` is the listening socket's block and
`own` the connections' blocks. -/
structure Inv (base : Finset Int) (lst : Addr) (own : Nat → Option Addr) (s : State) : Prop where
  nopen_eq : s.nopen = (usedSlots s.isopen s.ncons).card
  touched : Touched base s.isopen s.cd s.ncons
  fds_eq : s.fds = base ∪ s.clients
  sd_base : s.sd ∈ base
  listener : s.heap lst = some s.sd
  block : ∀ i < s.ncons, s.isopen i = true → ∃ a, own i = some a ∧ s.heap a = some (s.cd i)
  owned : ∀ i a, own i = some a → i < s.ncons ∧ s.isopen i = true
  registered : ∀ fd a, s.interest fd = some a → s.heap a = some fd ∧ Live lst own a
  pending : ∀ i n, s.pc = .dispatching i n → Pending lst own s.ep_event i n

section Facts

variable {base : Finset Int} {lst : Addr} {own : Nat → Option Addr} {s t : State} {i j : Nat} {a : Addr}

theorem Inv.nopen_le (h : Inv base lst own s) : s.nopen ≤ s.ncons := by
  have hcard := usedSlots_card_le s.isopen s.ncons
  rw [h.nopen_eq]
  omega

theorem Inv.slot_lt (h : Inv base lst own s) (hn : s.nopen < s.ncons) :
    firstFree s.isopen s.ncons < s.ncons := by
  have hcard := h.nopen_eq
  exact firstFree_lt (by omega)

/-- Slot `i` holds the `i`-th spare descriptor. -/
theorem Inv.cd_eq (h : Inv base lst own s) (hi : i < s.ncons) (hopen : s.isopen i = true) :
    s.cd i = spare base i := by
  rcases h.touched with ⟨k, hcd, hk⟩
  exact hcd i (hk i hi hopen)

theorem Inv.cd_notMem (h : Inv base lst own s) (hi : i < s.ncons) (hopen : s.isopen i = true) :
    s.cd i ∉ base := by
  rw [h.cd_eq hi hopen]
  exact spare_notMem base i

theorem Inv.cd_ne_sd (h : Inv base lst own s) (hi : i < s.ncons) (hopen : s.isopen i = true) :
    s.cd i ≠ s.sd := fun he ↦ h.cd_notMem hi hopen (he ▸ h.sd_base)

theorem Inv.cd_inj (h : Inv base lst own s) (hi : i < s.ncons) (hui : s.isopen i = true)
    (hj : j < s.ncons) (huj : s.isopen j = true) (he : s.cd i = s.cd j) : i = j := by
  rw [h.cd_eq hi hui, h.cd_eq hj huj] at he
  exact spare_inj.mp he

theorem Inv.distinct (h : Inv base lst own s) : Distinct s.isopen s.cd s.ncons := by
  intro i hi j hj he
  rcases mem_usedSlots.mp hi with ⟨hi, hui⟩
  rcases mem_usedSlots.mp hj with ⟨hj, huj⟩
  exact h.cd_inj hi hui hj huj he

/-- The search of `terminate_client` finds the open slot: the slots before it hold lower descriptors,
whether they are open or not. -/
theorem Inv.find_client (h : Inv base lst own s) (hi : i < s.ncons) (hopen : s.isopen i = true) :
    find_client s.cd (s.cd i) s.ncons = some i := by
  rcases h.touched with ⟨k, hcd, hk⟩
  have hik := hk i hi hopen
  refine find_client_eq_some.mpr ⟨hi, rfl, fun j hj he ↦ ?_⟩
  rw [hcd j (by omega), hcd i hik] at he
  have hji := spare_inj.mp he
  omega

theorem Inv.owner_heap (h : Inv base lst own s) (ho : own i = some a) : s.heap a = some (s.cd i) := by
  rcases h.owned i a ho with ⟨hi, hopen⟩
  rcases h.block i hi hopen with ⟨b, hb, hheap⟩
  rw [ho] at hb
  cases hb
  exact hheap

theorem Inv.owner_inj (h : Inv base lst own s) (hi : own i = some a) (hj : own j = some a) : i = j := by
  have hci := h.owner_heap hi
  rw [h.owner_heap hj, Option.some.injEq] at hci
  rcases h.owned i a hi with ⟨hi', hui⟩
  rcases h.owned j a hj with ⟨hj', huj⟩
  exact h.cd_inj hi' hui hj' huj hci.symm

theorem Inv.owner_ne (h : Inv base lst own s) (hi : own i = some a) : a ≠ lst := by
  rintro rfl
  have hheap := h.owner_heap hi
  rw [h.listener, Option.some.injEq] at hheap
  rcases h.owned i a hi with ⟨hi', hui⟩
  exact h.cd_ne_sd hi' hui hheap.symm

theorem Inv.live_heap (h : Inv base lst own s) (ha : Live lst own a) : ∃ fd, s.heap a = some fd := by
  rcases ha with rfl | ⟨ci, ho⟩
  · exact ⟨_, h.listener⟩
  · exact ⟨_, h.owner_heap ho⟩

/-- The descriptor of an event still to be dispatched can be read. -/
theorem Inv.event_fd (h : Inv base lst own s) {n : Nat} (hpc : s.pc = .dispatching i n) (hij : i ≤ j)
    (hj : j < n) : ∃ a fd, s.ep_event j = some a ∧ Live lst own a ∧ s.heap a = some fd ∧
      event_fd s j = some fd := by
  rcases (h.pending i n hpc).live j hij hj with ⟨a, he, hl⟩
  rcases h.live_heap hl with ⟨fd, hfd⟩
  refine ⟨a, fd, he, hl, hfd, ?_⟩
  rw [Epoll.event_fd, he]
  exact hfd

-- An event that is not about the listening socket is about an open connection.
theorem Inv.client_event (h : Inv base lst own s) {n : Nat} {fd : Int} (hpc : s.pc = .dispatching i n)
    (hi : i < n) (he : Epoll.event_fd s i = some fd) (hsd : fd ≠ s.sd) :
    ∃ ci a, ci < s.ncons ∧ s.isopen ci = true ∧ s.cd ci = fd ∧ own ci = some a ∧
      s.ep_event i = some a ∧ s.heap a = some fd := by
  rcases h.event_fd hpc (Nat.le_refl i) hi with ⟨a, fd', hev, hl, hheap, he'⟩
  rw [he, Option.some.injEq] at he'
  subst he'
  rcases hl with rfl | ⟨ci, ho⟩
  · rw [h.listener, Option.some.injEq] at hheap
    exact absurd hheap.symm hsd
  · rcases h.owned ci a ho with ⟨hci, hopen⟩
    have hcd := h.owner_heap ho
    rw [hheap, Option.some.injEq] at hcd
    exact ⟨ci, a, hci, hopen, hcd.symm, ho, hev, hheap⟩

end Facts

/-! ## The invariant -/

section Steps

variable {base : Finset Int} {lst : Addr} {own : Nat → Option Addr} {s t : State} {i n : Nat}

theorem Pending.next {ep_event : Nat → Option Addr} (h : Pending lst own ep_event i n) :
    Pending lst own ep_event (i + 1) n where
  live := fun j hij hj ↦ h.live j (by omega) hj
  inj := fun j k hij hj hik hk he ↦ h.inj j k (by omega) hj (by omega) hk he

theorem Live.take {m : Nat} {a : Addr} (hl : Live lst own a) (tptr : Addr) (hown : own m = none) :
    Live lst (Function.update own m (some tptr)) a := by
  refine hl.imp_right fun ⟨j, hj⟩ ↦ ⟨j, ?_⟩
  have hne : j ≠ m := by
    rintro rfl
    rw [hown] at hj
    cases hj
  rwa [Function.update_of_ne hne]

theorem Live.drop {ci : Nat} {a b : Addr} (hl : Live lst own b) (ho : own ci = some a) (hba : b ≠ a) :
    Live lst (Function.update own ci none) b := by
  refine hl.imp_right fun ⟨j, hj⟩ ↦ ⟨j, ?_⟩
  have hne : j ≠ ci := by
    rintro rfl
    rw [ho, Option.some.injEq] at hj
    exact hba hj.symm
  rwa [Function.update_of_ne hne]

/-- `accept_it` may overwrite an event of the batch; the block it puts there is no other event's. -/
theorem Pending.take {ep_event : Nat → Option Addr} (h : Pending lst own ep_event i n) {m : Nat}
    {tptr : Addr} (hown : own m = none) (hnew : ∀ a, Live lst own a → a ≠ tptr) :
    Pending lst (Function.update own m (some tptr)) (Function.update ep_event m (some tptr)) i n := by
  have hother : ∀ j, i ≤ j → j < n → ep_event j ≠ some tptr := by
    intro j hij hj he
    rcases h.live j hij hj with ⟨a, hev, hl⟩
    rw [he, Option.some.injEq] at hev
    exact hnew a hl hev.symm
  constructor
  case live =>
    intro j hij hj
    by_cases hjm : j = m
    · subst hjm
      exact ⟨tptr, Function.update_self .., Or.inr ⟨j, Function.update_self ..⟩⟩
    · rcases h.live j hij hj with ⟨a, hev, hl⟩
      exact ⟨a, (Function.update_of_ne hjm ..).trans hev, hl.take tptr hown⟩
  case inj =>
    intro j k hij hj hik hk he
    by_cases hjm : j = m <;> by_cases hkm : k = m
    · exact hjm.trans hkm.symm
    · rw [hjm, Function.update_self, Function.update_of_ne hkm] at he
      exact absurd he.symm (hother k hik hk)
    · rw [hkm, Function.update_self, Function.update_of_ne hjm] at he
      exact absurd he (hother j hij hj)
    · rw [Function.update_of_ne hjm, Function.update_of_ne hkm] at he
      exact h.inj j k hij hj hik hk he

/-- The block freed with event `i` is not the block of a later event. -/
theorem Pending.drop {ep_event : Nat → Option Addr} (h : Pending lst own ep_event i n) (hi : i < n)
    {ci : Nat} {a : Addr} (ho : own ci = some a) (hev : ep_event i = some a) :
    Pending lst (Function.update own ci none) ep_event (i + 1) n where
  live := by
    intro j hij hj
    rcases h.live j (by omega) hj with ⟨b, hevb, hl⟩
    refine ⟨b, hevb, hl.drop ho ?_⟩
    rintro rfl
    have hji := h.inj j i (by omega) hj (Nat.le_refl i) hi (hevb.trans hev.symm)
    omega
  inj := h.next.inj

theorem Touched.take {isopen : Nat → Bool} {cd : Nat → Int} {ncons : Nat}
    (h : Touched base isopen cd ncons) :
    Touched base (Function.update isopen (firstFree isopen ncons) true)
      (Function.update cd (firstFree isopen ncons) (spare base (firstFree isopen ncons))) ncons := by
  have hle := firstFree_le isopen ncons
  have hbelow : ∀ j < firstFree isopen ncons, isopen j = true := fun j hj ↦ used_of_lt_firstFree hj
  generalize firstFree isopen ncons = m at *
  rcases h with ⟨k, hcd, hk⟩
  have hmk : m ≤ k := by
    by_contra hlt
    have hkk := hk k (by omega) (hbelow k (by omega))
    omega
  refine ⟨max k (m + 1), fun j hj ↦ ?_, fun j hj hopen ↦ ?_⟩
  · by_cases hjm : j = m
    · rw [hjm, Function.update_self]
    · rw [Function.update_of_ne hjm]
      exact hcd j (by omega)
  · by_cases hjm : j = m
    · omega
    · rw [Function.update_of_ne hjm] at hopen
      have hjk := hk j hj hopen
      omega

theorem Touched.drop {isopen : Nat → Bool} {cd : Nat → Int} {ncons : Nat}
    (h : Touched base isopen cd ncons) {ci : Nat} (hopen : isopen ci = true) :
    Touched base (Function.update isopen ci false) cd ncons := by
  rcases h with ⟨k, hcd, hk⟩
  refine ⟨k, hcd, fun j hj huj ↦ hk j hj ?_⟩
  by_cases hjc : j = ci
  · rwa [hjc]
  · rwa [Function.update_of_ne hjc] at huj

theorem inv_main_init (ncons : Nat) (sd epfd : Int) (isopen : Nat → Bool) (cd : Nat → Int)
    (fds : Finset Int) (lst : Addr) :
    Inv (insert epfd (insert sd fds)) lst (owners [])
      (main_init ncons sd epfd isopen cd fds lst) := by
  have hfree : ∀ i < ncons, (main_init ncons sd epfd isopen cd fds lst).isopen i = false := by
    intro i hi
    simp only [main_init, if_pos (show i < ncons + 8 by omega)]
  have hnone : (main_init ncons sd epfd isopen cd fds lst).clients = ∅ := held_empty hfree
  have hlst : (main_init ncons sd epfd isopen cd fds lst).heap lst = some sd :=
    Heap.alloc_same (fun _ ↦ none) lst sd
  constructor
  case nopen_eq =>
    show (0 : Int) = ↑(usedSlots _ ncons).card
    rw [usedSlots_empty hfree]
    rfl
  case touched =>
    refine ⟨0, fun i hi ↦ by omega, fun i hi hopen ↦ ?_⟩
    rw [hfree i hi] at hopen
    cases hopen
  case fds_eq =>
    rw [hnone, Finset.union_empty]
    rfl
  case sd_base => simp [main_init]
  case listener => exact hlst
  case block =>
    intro i hi hopen
    rw [hfree i hi] at hopen
    cases hopen
  case owned => intro i a ho; cases ho
  case registered =>
    intro fd a hr
    simp only [main_init] at hr
    by_cases hfd : fd = sd
    · rw [hfd, Function.update_self, Option.some.injEq] at hr
      exact ⟨hr ▸ hfd ▸ hlst, Or.inl hr.symm⟩
    · rw [Function.update_of_ne hfd] at hr
      cases hr
  case pending => intro i n hpc; cases hpc

theorem inv_epoll_wait {ready : List Int} (h : Inv base lst own s) (hr : Reports s ready) :
    Inv base lst own (epoll_wait s ready) := by
  refine { h with pending := fun i n hpc ↦ ?_ }
  cases hpc
  have hreg : ∀ j (hj : j < ready.length), ∃ a, (epoll_wait s ready).ep_event j = some a ∧
      s.interest (ready.get ⟨j, hj⟩) = some a := by
    intro j hj
    rcases Option.isSome_iff_exists.mp (hr.2.2 _ (List.get_mem ready ⟨j, hj⟩)) with ⟨a, ha⟩
    exact ⟨a, by simp only [epoll_wait, dif_pos hj, ha], ha⟩
  constructor
  case live =>
    intro j _ hj
    rcases hreg j hj with ⟨a, hev, ha⟩
    exact ⟨a, hev, (h.registered _ a ha).2⟩
  case inj =>
    -- one registration belongs to one descriptor, and no descriptor is reported twice
    intro j k _ hj _ hk he
    rcases hreg j hj with ⟨a, hev, ha⟩
    rcases hreg k hk with ⟨b, hev', hb⟩
    rw [hev, hev', Option.some.injEq] at he
    subst he
    have hfd := (h.registered _ a ha).1
    rw [(h.registered _ a hb).1, Option.some.injEq] at hfd
    have hjk := List.nodup_iff_injective_get.mp hr.2.1 hfd
    exact (Fin.mk.inj hjk).symm

/-- The first free slot gets the lowest free descriptor, and both have the same number. -/
theorem accept_spare (h : Inv base lst own s) (hn : s.nopen < s.ncons) {fd : Int}
    (hacc : AcceptLowest s.fds fd) : fd = spare base (firstFree s.isopen s.ncons) := by
  have hfree := firstFree_free (h.slot_lt hn)
  refine @AcceptLowest.eq_spare base s.fds fd (fun j ↦ j < s.ncons ∧ s.isopen j = true) _ hacc
    (fun d ↦ ?_) ?_ ?_
  · rw [h.fds_eq, Finset.mem_union, State.clients, mem_held]
    refine or_congr_right (exists_congr fun j ↦ ⟨?_, ?_⟩)
    · rintro ⟨hj, hopen, he⟩
      exact ⟨⟨hj, hopen⟩, (h.cd_eq hj hopen).symm.trans he⟩
    · rintro ⟨⟨hj, hopen⟩, he⟩
      exact ⟨hj, hopen, (h.cd_eq hj hopen).trans he⟩
  · intro j hj
    exact ⟨hj.trans_le (firstFree_le ..), used_of_lt_firstFree hj⟩
  · rintro ⟨_, hopen⟩
    rw [hfree] at hopen
    cases hopen

theorem inv_accept_it (h : Inv base lst own s) (hpc : s.pc = .dispatching i n)
    (hn : s.nopen < s.ncons) {fd : Int} {tptr : Addr} {added : Bool} {ci : Nat}
    (hacc : AcceptLowest s.fds fd) (hm : s.heap tptr = none)
    (ha : accept_it s fd tptr added = some (ci, t)) :
    Inv base lst (Function.update own ci (some tptr)) { t with pc := .dispatching (i + 1) n } := by
  have hfd := accept_spare h hn hacc
  have hci := h.slot_lt hn
  have hfree := firstFree_free hci
  rcases accept_it_eq ha with ⟨rfl, rfl⟩
  have hown : own (firstFree s.isopen s.ncons) = none := by
    rcases ho : own (firstFree s.isopen s.ncons) with _ | a
    · rfl
    · rw [(h.owned _ a ho).2] at hfree
      cases hfree
  have hnew : ∀ a, Live lst own a → a ≠ tptr := by
    rintro a hl rfl
    rcases h.live_heap hl with ⟨v, hv⟩
    rw [hm] at hv
    cases hv
  have hkeep : ∀ a, Live lst own a → (s.heap.alloc tptr fd) a = s.heap a := fun a hl ↦
    Heap.alloc_of_ne _ _ (hnew a hl)
  constructor
  case nopen_eq =>
    have hcard := usedSlots_take_card hci hfree
    have hnopen := h.nopen_eq
    simp only
    omega
  case touched =>
    rw [hfd]
    exact h.touched.take
  case fds_eq =>
    simp only [State.clients, held_take hci hfree, h.fds_eq, Finset.union_insert]
  case sd_base => exact h.sd_base
  case listener => exact (hkeep lst (Or.inl rfl)).trans h.listener
  case block =>
    intro j hj hopen
    by_cases hjm : j = firstFree s.isopen s.ncons
    · subst hjm
      refine ⟨tptr, Function.update_self .., ?_⟩
      simp only [Function.update_self, Heap.alloc_same]
    · simp only [Function.update_of_ne hjm] at hopen ⊢
      rcases h.block j hj hopen with ⟨a, ho, hheap⟩
      exact ⟨a, ho, (hkeep a (Or.inr ⟨j, ho⟩)).trans hheap⟩
  case owned =>
    intro j a ho
    by_cases hjm : j = firstFree s.isopen s.ncons
    · subst hjm
      exact ⟨hci, Function.update_self ..⟩
    · simp only [Function.update_of_ne hjm] at ho ⊢
      exact h.owned j a ho
  case registered =>
    have hold : ∀ d a, s.interest d = some a → (s.heap.alloc tptr fd) a = some d ∧
        Live lst (Function.update own (firstFree s.isopen s.ncons) (some tptr)) a := by
      intro d a hr
      rcases h.registered d a hr with ⟨hheap, hl⟩
      exact ⟨(hkeep a hl).trans hheap, hl.take tptr hown⟩
    intro d a hr
    cases added with
    | false => exact hold d a hr
    | true =>
      by_cases hd : d = fd
      · subst hd
        simp only [if_true, Function.update_self, Option.some.injEq] at hr
        subst hr
        exact ⟨Heap.alloc_same .., Or.inr ⟨_, Function.update_self ..⟩⟩
      · simp only [if_true, Function.update_of_ne hd] at hr
        exact hold d a hr
  case pending =>
    intro i' n' hpc'
    cases hpc'
    exact (h.pending i n hpc).next.take hown hnew

/-- `terminate_client` closes the connection whose event it is given and frees that connection's
block; every other block that is still needed stays. -/
theorem inv_terminate_client (h : Inv base lst own s) (hpc : s.pc = .dispatching i n) (hi : i < n)
    {fd : Int} {ci : Nat} {a : Addr} (hci : ci < s.ncons) (hopen : s.isopen ci = true)
    (hcd : s.cd ci = fd) (ho : own ci = some a) (hev : s.ep_event i = some a)
    (ht : terminate_client s fd i = some t) :
    Inv base lst (Function.update own ci none) { t with pc := .dispatching (i + 1) n } := by
  subst hcd
  rw [terminate_client_eq (h.find_client hci hopen) hev (h.owner_heap ho)] at ht
  cases ht
  have hkeep : ∀ b, b ≠ a → Function.update s.heap a none b = s.heap b := fun b hne ↦
    Function.update_of_ne hne ..
  constructor
  case nopen_eq =>
    have hcard := usedSlots_drop_card hci hopen
    have hnopen := h.nopen_eq
    simp only
    omega
  case touched => exact h.touched.drop hopen
  case fds_eq =>
    simp only [State.clients, h.distinct.held_drop hci hopen, h.fds_eq, Finset.erase_union_distrib,
      Finset.erase_eq_of_notMem (h.cd_notMem hci hopen)]
  case sd_base => exact h.sd_base
  case listener => exact (hkeep lst (Ne.symm (h.owner_ne ho))).trans h.listener
  case block =>
    intro j hj huj
    have hjc : j ≠ ci := by
      rintro rfl
      simp only [Function.update_self] at huj
      cases huj
    simp only [Function.update_of_ne hjc] at huj ⊢
    rcases h.block j hj huj with ⟨b, hob, hheap⟩
    refine ⟨b, hob, (hkeep b ?_).trans hheap⟩
    rintro rfl
    exact hjc (h.owner_inj hob ho)
  case owned =>
    intro j b hob
    have hjc : j ≠ ci := by
      rintro rfl
      rw [Function.update_self] at hob
      cases hob
    simp only [Function.update_of_ne hjc] at hob ⊢
    exact h.owned j b hob
  case registered =>
    intro d b hr
    have hd : d ≠ s.cd ci := by
      rintro rfl
      simp only [Function.update_self] at hr
      cases hr
    simp only [Function.update_of_ne hd] at hr
    rcases h.registered d b hr with ⟨hheap, hl⟩
    have hba : b ≠ a := by
      rintro rfl
      rw [h.owner_heap ho, Option.some.injEq] at hheap
      exact hd hheap.symm
    exact ⟨(hkeep b hba).trans hheap, hl.drop ho hba⟩
  case pending =>
    intro i' n' hpc'
    cases hpc'
    exact (h.pending i n hpc).drop hi ho hev

/-- Moving on to the next event changes nothing else. -/
theorem inv_next (h : Inv base lst own s) (hpc : s.pc = .dispatching i n) :
    Inv base lst own { s with pc := .dispatching (i + 1) n } := by
  refine { h with pending := fun i' n' hpc' ↦ ?_ }
  cases hpc'
  exact (h.pending i n hpc).next

theorem inv_step {e : Event} (h : Inv base lst own s) (hs : Step s e t) :
    Inv base lst (owner_step own e) t := by
  cases hs with
  | wait _ hr => exact inv_epoll_wait h hr
  | accept hpc _ _ hn hacc hm ha => exact inv_accept_it h hpc hn hacc hm ha
  | full hpc _ _ _ => exact inv_next h hpc
  | serve hpc _ _ _ _ => exact inv_next h hpc
  | close hpc hi he hsd _ ht =>
    rcases h.client_event hpc hi he hsd with ⟨ci, a, hci, hopen, rfl, ho, hev, _⟩
    rw [h.find_client hci hopen]
    exact inv_terminate_client h hpc hi hci hopen rfl ho hev ht
  | wrap _ _ => exact { h with pending := fun _ _ hpc' ↦ by cases hpc' }

end Steps

/-! ## Every run -/

section Runs

variable {ncons : Nat} {sd epfd : Int} {isopen : Nat → Bool} {cd : Nat → Int} {fds : Finset Int}
  {lst : Addr} {es : List Event} {s : State}

theorem run_inv (h : Run Step (main_init ncons sd epfd isopen cd fds lst) es s) :
    Inv (insert epfd (insert sd fds)) lst (owners es) s := by
  refine h.invariant (fun es s ↦ Inv (insert epfd (insert sd fds)) lst (owners es) s)
    (inv_main_init ..) ?_
  intro es s e t _ hi hs
  rw [owners_snoc]
  exact inv_step hi hs

theorem terminate_client_fixed {t : State} {sdes : Int} {i : Nat}
    (h : terminate_client s sdes i = some t) : t.ncons = s.ncons ∧ t.sd = s.sd := by
  unfold terminate_client at h
  split at h
  next => cases h; exact ⟨rfl, rfl⟩
  next =>
    simp only [Option.bind_eq_bind, Option.bind_eq_some_iff] at h
    rcases h with ⟨_, _, h⟩
    cases h
    exact ⟨rfl, rfl⟩

-- `ncons` and `sd` are assigned before the loop only.
theorem step_fixed {e : Event} {t : State} (hs : Step s e t) : t.ncons = s.ncons ∧ t.sd = s.sd := by
  cases hs with
  | accept _ _ _ _ _ _ ha =>
    rcases accept_it_eq ha with ⟨_, rfl⟩
    exact ⟨rfl, rfl⟩
  | close _ _ _ _ _ ht =>
    have hfixed := terminate_client_fixed ht
    exact hfixed
  | wait _ _ => exact ⟨rfl, rfl⟩
  | full _ _ _ _ => exact ⟨rfl, rfl⟩
  | serve _ _ _ _ _ => exact ⟨rfl, rfl⟩
  | wrap _ _ => exact ⟨rfl, rfl⟩

theorem run_fixed (h : Run Step (main_init ncons sd epfd isopen cd fds lst) es s) :
    s.ncons = ncons ∧ s.sd = sd := by
  refine h.state_invariant (fun s ↦ s.ncons = ncons ∧ s.sd = sd) ⟨rfl, rfl⟩ fun s e t hi hs ↦ ?_
  have ht := step_fixed hs
  exact ⟨ht.1.trans hi.1, ht.2.trans hi.2⟩

/-- In every state that a run of the server reaches: `nopen` counts the open slots, of which there are
at most `ncons`, and their descriptors differ; the descriptor of every event still to be dispatched
can be read from its block and, when it is a client's, closed; and each closing finds the open slot
that holds the descriptor and frees the block allocated for that connection. -/
theorem epoll_close (h : Run Step (main_init ncons sd epfd isopen cd fds lst) es s) :
    s.nopen = (usedSlots s.isopen ncons).card ∧ s.nopen ≤ ncons ∧
    (∀ i j, i < ncons → s.isopen i = true → j < ncons → s.isopen j = true → s.cd i = s.cd j → i = j) ∧
    (∀ i n, s.pc = .dispatching i n → i < n →
      ∃ fd, event_fd s i = some fd ∧ (fd ≠ sd → (terminate_client s fd i).isSome)) ∧
    (∀ fd slot freed t, Step s (.close fd slot freed) t →
      ∃ ci a, slot = some ci ∧ ci < ncons ∧ s.isopen ci = true ∧ s.cd ci = fd ∧
        t.isopen = Function.update s.isopen ci false ∧ t.fds = s.fds.erase fd ∧
        freed = some a ∧ owners es ci = some a ∧ s.heap a = some fd ∧
        t.heap = Function.update s.heap a none) := by
  have hi := run_inv h
  rcases run_fixed h with ⟨rfl, rfl⟩
  refine ⟨hi.nopen_eq, hi.nopen_le, fun i j hi' hui hj huj ↦ hi.cd_inj hi' hui hj huj, ?_, ?_⟩
  · intro i n hpc hin
    rcases hi.event_fd hpc (Nat.le_refl i) hin with ⟨_, fd, _, _, _, he⟩
    refine ⟨fd, he, fun hsd ↦ ?_⟩
    rcases hi.client_event hpc hin he hsd with ⟨ci, a, hci, hopen, rfl, _, hev, hheap⟩
    rw [terminate_client_eq (hi.find_client hci hopen) hev hheap]
    rfl
  · intro fd slot freed t hs
    cases hs with
    | close hpc hin he hsd _ ht =>
      rcases hi.client_event hpc hin he hsd with ⟨ci, a, hci, hopen, rfl, ho, hev, hheap⟩
      rw [terminate_client_eq (hi.find_client hci hopen) hev hheap] at ht
      cases ht
      exact ⟨ci, a, hi.find_client hci hopen, hci, hopen, rfl, rfl, rfl, hev, ho, hheap, rfl⟩

-- The only client shuts down; `cd[1]` still holds what `malloc` left there, the client's descriptor.
theorem epoll_close_shutdown :
    ∃ s t, Run Step (main_init 2 3 4 (fun _ ↦ true) (fun _ ↦ 5) {0, 1, 2} 100)
        [.wait [3], .accept 0 5 101, .wrap, .wait [5]] s ∧
      Step s (.close 5 (some 0) (some 101)) t ∧ s.cd 1 = 5 ∧
      s.nopen = (usedSlots s.isopen 2).card := by
  let s₀ := main_init 2 3 4 (fun _ ↦ true) (fun _ ↦ 5) {0, 1, 2} 100
  let s₁ := epoll_wait s₀ [3]
  let s₂ := ((accept_it s₁ 5 101 true).get rfl).2
  let s₃ := epoll_wait { s₂ with pc := .waiting } [5]
  let t := (terminate_client s₃ 5 0).get rfl
  have haccept : Step s₁ (.accept 0 5 101) { s₂ with pc := .dispatching 1 1 } :=
    .accept rfl (by decide) rfl (by decide) (by decide) rfl (show accept_it s₁ 5 101 true = _ from rfl)
  have hclose : Step s₃ (.close 5 (some 0) (some 101)) { t with pc := .dispatching 1 1 } :=
    @Step.close s₃ 0 1 5 0 t rfl (by decide) rfl (by decide) (by decide) rfl
  have hrun : Run Step s₀ [.wait [3], .accept 0 5 101, .wrap, .wait [5]] s₃ :=
    .cons (.wait rfl ⟨by decide, by decide, by decide⟩) (.cons haccept (.cons (.wrap rfl (by decide))
      (.cons (.wait rfl ⟨by decide, by decide, by decide⟩) .nil)))
  exact ⟨s₃, _, hrun, hclose, rfl, (epoll_close hrun).1⟩

end Runs

end OK210Drivers.Server.Epoll
