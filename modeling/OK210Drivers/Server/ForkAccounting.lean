import OK210Drivers.Library.Runs
import OK210Drivers.Server.Fork

/-!
# The accounting of the fork() server

A slot is marked open two statements before the pid of its child is stored.  When the handler comes to
the slot in between, `waitpid` is called with what is left there: the pid of an earlier child or what
`malloc` returned.  When `fork` fails, -1 is stored, and until `DEATH` has ended the process the handler
asks for any child.  Nothing happens unless a child has exited that the number asks for, and then the
wrong slot is freed.
-/

open Library

namespace OK210Drivers.Server.Fork

/-- The slot and the descriptor of the connection that a child was forked for last. -/
def forked_step (own : Int → Option (Nat × Int)) : Event → Int → Option (Nat × Int)
  | .fork ci fd q => Function.update own q (some (ci, fd))
  | _ => own

def forkedFor (es : List Event) : Int → Option (Nat × Int) := es.foldl forked_step fun _ ↦ none

/-- A call of `waitpid` that reaps a child frees that child's slot and closes its connection. -/
def FreesOwn (pre : List Event) (e : Event) : Prop :=
  ∀ ci fd q, e = .wait ci fd q → 0 < q → forkedFor pre q = some (ci, fd)

structure Accounts (s : State) : Prop where
  nopen_eq : s.nopen = (usedSlots s.isopen s.ncons).card
  nopen_le : s.nopen ≤ s.ncons
  child : ∀ i < s.ncons, s.isopen i = true → s.pid i ∈ s.kids

/-- At the top of the loop the accounts are right, and every slot freed so far was that of the child
that was reaped. -/
def Accounted (es : List Event) (s : State) : Prop :=
  (s.pc = .top → Accounts s) ∧ Always FreesOwn es

/-- When `waitpid` is called for the open slot that holds no child's pid, none of the children that have
exited is one that the value there asks for. -/
def Harmless (s : State) (e : Event) : Prop :=
  ∀ ci fd q, e = .wait ci fd q → window s = some ci →
    ∀ z ∈ s.zombies, waits_for s.pgrp (s.pid ci) z = false

-- The slots that are marked open and not counted yet.
def uncounted : Pc → Nat
  | .counting _ => 1
  | _ => 0

-- What the main loop knows about the slot it is busy with.
def AtPlace (s : State) : Prop :=
  match s.pc with
  | .searching => s.nopen < s.ncons
  | .accepting ci => ci < s.ncons ∧ s.isopen ci = false
  | .opening ci => ci < s.ncons ∧ s.isopen ci = false
  | .counting ci => ci < s.ncons ∧ s.isopen ci = true
  | .forking ci => ci < s.ncons ∧ s.isopen ci = true
  | _ => True

/-- `own` are the connections that the children were forked for. -/
structure Inv (own : Int → Option (Nat × Int)) (s : State) : Prop where
  zombies_sub : s.zombies ⊆ s.kids
  kids_pos : ∀ q ∈ s.kids, 0 < q
  owner : ∀ i < s.ncons, s.isopen i = true → window s ≠ some i →
    s.pid i ∈ s.kids ∧ own (s.pid i) = some (i, s.cd i)
  owned : ∀ q ∈ s.kids, ∃ i < s.ncons, s.isopen i = true ∧ window s ≠ some i ∧ s.pid i = q
  nopen_eq : s.nopen + uncounted s.pc = (usedSlots s.isopen s.ncons).card
  place : AtPlace s

theorem forkedFor_snoc (es : List Event) (e : Event) :
    forkedFor (es ++ [e]) = forked_step (forkedFor es) e := by
  rw [forkedFor, List.foldl_append]
  rfl

section Steps

variable {own : Int → Option (Nat × Int)} {s t : State} {e : Event} {ci i : Nat} {q : Int}

theorem inv_main_init (ncons : Nat) (pgrp : Int) (isopen : Nat → Bool) (cd pid : Nat → Int) :
    Inv (forkedFor []) (main_init ncons pgrp isopen cd pid) := by
  have hfree : ∀ i < ncons, (main_init ncons pgrp isopen cd pid).isopen i = false :=
    fun i hi ↦ if_pos hi
  constructor
  case zombies_sub => exact Finset.Subset.refl _
  case kids_pos => exact fun q hq ↦ absurd hq (Finset.notMem_empty q)
  case owner =>
    intro i hi hopen
    rw [hfree i hi] at hopen
    cases hopen
  case owned => exact fun q hq ↦ absurd hq (Finset.notMem_empty q)
  case nopen_eq =>
    show (0 : Int) + 0 = ↑(usedSlots _ ncons).card
    rw [usedSlots_empty hfree]
    rfl
  case place => trivial

theorem Inv.accounts (h : Inv own s) (hpc : s.pc = .top) : Accounts s := by
  have hcount := h.nopen_eq
  have hcard := usedSlots_card_le s.isopen s.ncons
  rw [hpc] at hcount
  simp only [uncounted] at hcount
  have hnopen : s.nopen = (usedSlots s.isopen s.ncons).card := by omega
  constructor
  case nopen_eq => exact hnopen
  case nopen_le => omega
  case child =>
    intro i hi hopen
    have hwin : window s ≠ some i := by
      rw [window_top hpc]
      exact (Option.some_ne_none i).symm
    exact (h.owner i hi hopen hwin).1

-- The slot of a child that has not been reaped.
theorem Inv.slot_of (h : Inv own s) (hq : q ∈ s.kids) :
    ∃ i < s.ncons, s.isopen i = true ∧ window s ≠ some i ∧ s.pid i = q ∧
      own q = some (i, s.cd i) := by
  rcases h.owned q hq with ⟨i, hi, hopen, hwin, rfl⟩
  exact ⟨i, hi, hopen, hwin, rfl, (h.owner i hi hopen hwin).2⟩

/-- Outside of the window only the child of the slot itself can be reaped. -/
theorem Inv.reaped_own (h : Inv own s) (hci : ci < s.ncons) (ho : s.isopen ci = true)
    (hwin : window s ≠ some ci) (hw : waitpid s (s.pid ci) q) (hq : 0 < q) : q = s.pid ci := by
  have hkid := (h.owner ci hci ho hwin).1
  have hwaits := (waitpid_pos hw hq).2
  rwa [waits_for_pos (h.kids_pos _ hkid)] at hwaits

theorem inv_reap (h : Inv own s) (hci : ci < s.ncons) (ho : s.isopen ci = true)
    (hwin : window s ≠ some ci) : Inv own { s with
      sweep := some (ci + 1)
      kids := s.kids.erase (s.pid ci)
      zombies := s.zombies.erase (s.pid ci)
      isopen := Function.update s.isopen ci false
      nopen := s.nopen - 1 } := by
  have hother : ∀ i < s.ncons, Function.update s.isopen ci false i = true →
      i ≠ ci ∧ s.isopen i = true := by
    intro i _ hopen
    have hne : i ≠ ci := by
      rintro rfl
      rw [Function.update_self] at hopen
      cases hopen
    rw [Function.update_of_ne hne] at hopen
    exact ⟨hne, hopen⟩
  constructor
  case zombies_sub => exact Finset.erase_subset_erase _ h.zombies_sub
  case kids_pos => exact fun q hq ↦ h.kids_pos q (Finset.mem_of_mem_erase hq)
  case owner =>
    intro i hi hopen hw
    rcases hother i hi hopen with ⟨hne, hopen⟩
    rcases h.owner i hi hopen hw with ⟨hkid, hown⟩
    refine ⟨Finset.mem_erase.mpr ⟨fun he ↦ hne ?_, hkid⟩, hown⟩
    have hci' := (h.owner ci hci ho hwin).2
    rw [← he, hown] at hci'
    cases hci'
    rfl
  case owned =>
    intro q hq
    rcases Finset.mem_erase.mp hq with ⟨hne, hq⟩
    rcases h.owned q hq with ⟨i, hi, hopen, hw, rfl⟩
    have hic : i ≠ ci := by
      rintro rfl
      exact hne rfl
    exact ⟨i, hi, (Function.update_of_ne hic ..).trans hopen, hw, rfl⟩
  case nopen_eq =>
    have hcard := usedSlots_drop_card hci ho
    have hcount := h.nopen_eq
    simp only
    omega
  case place =>
    have hplace := h.place
    have hclosed : ∀ j, s.isopen j = false → Function.update s.isopen ci false j = false := by
      intro j hj
      by_cases hjc : j = ci
      · rw [hjc, Function.update_self]
      · rwa [Function.update_of_ne hjc]
    have hopen : ∀ j, window s = some j → s.isopen j = true →
        Function.update s.isopen ci false j = true := by
      intro j hj huj
      have hjc : j ≠ ci := by
        rintro rfl
        exact hwin hj
      rwa [Function.update_of_ne hjc]
    cases hpc : s.pc with
    | searching =>
      simp only [AtPlace, hpc] at hplace ⊢
      omega
    | accepting j =>
      simp only [AtPlace, hpc] at hplace ⊢
      exact ⟨hplace.1, hclosed j hplace.2⟩
    | opening j =>
      simp only [AtPlace, hpc] at hplace ⊢
      exact ⟨hplace.1, hclosed j hplace.2⟩
    | counting j =>
      simp only [AtPlace, hpc] at hplace ⊢
      exact ⟨hplace.1, hopen j (window_counting hpc) hplace.2⟩
    | forking j =>
      simp only [AtPlace, hpc] at hplace ⊢
      exact ⟨hplace.1, hopen j (window_forking hpc) hplace.2⟩
    | _ => trivial

/-- A turn of the handler that is harmless reaps nothing or the slot's own child. -/
theorem inv_turn (h : Inv own s) (hci : ci < s.ncons) (ho : s.isopen ci = true)
    (hw : waitpid s (s.pid ci) q) (hg : Harmless s (.wait ci (s.cd ci) q)) :
    Inv own (cleanupkids_turn s ci q) ∧ (0 < q → own q = some (ci, s.cd ci)) := by
  by_cases hq : 0 < q
  · have hwin : window s ≠ some ci := by
      intro hwin
      rcases waitpid_pos hw hq with ⟨hz, hwaits⟩
      rw [hg ci _ q rfl hwin q hz] at hwaits
      cases hwaits
    have hown := h.reaped_own hci ho hwin hw hq
    subst hown
    rw [cleanupkids_turn_pos hq]
    exact ⟨inv_reap h hci ho hwin, fun _ ↦ (h.owner ci hci ho hwin).2⟩
  · rw [cleanupkids_turn_neg (not_lt.mp hq)]
    exact ⟨{ h with owner := h.owner, owned := h.owned, place := h.place }, fun hq' ↦ absurd hq' hq⟩

/-- A turn of the handler that is not harmless frees a slot for the child of another one. -/
theorem frees_other (h : Inv own s) (hw : waitpid s (s.pid ci) q) {fd : Int}
    (hg : ¬Harmless s (.wait ci fd q)) : 0 < q ∧ own q ≠ some (ci, fd) := by
  simp only [Harmless, not_forall] at hg
  rcases hg with ⟨ci', fd', q', he, hwin, z, hz, hwaits⟩
  cases he
  have hq := h.zombies_sub (waitpid_reaps hw hz (Bool.eq_true_of_not_eq_false hwaits))
  refine ⟨h.kids_pos q hq, fun hown ↦ ?_⟩
  rcases h.slot_of hq with ⟨i, _, _, hother, _, hi⟩
  rw [hown] at hi
  cases hi
  exact hother hwin

theorem Inv.slot_lt (h : Inv own s) (hpc : s.pc = .searching) :
    firstFree s.isopen s.ncons < s.ncons := by
  have hplace := h.place
  have hcount := h.nopen_eq
  simp only [AtPlace, hpc] at hplace
  simp only [hpc, uncounted] at hcount
  exact firstFree_lt (by omega)

-- The main loop goes on to a place outside of the window.
theorem Inv.goto (h : Inv own s) {pc : Pc} {sweep : Option Nat} (hwin : window s = none)
    (hwin' : window { s with pc := pc, sweep := sweep } = none) (hun : uncounted s.pc = 0)
    (hun' : uncounted pc = 0) (hplace : AtPlace { s with pc := pc, sweep := sweep }) :
    Inv own { s with pc := pc, sweep := sweep } := by
  have howner := h.owner
  have howned := h.owned
  have hcount := h.nopen_eq
  rw [hwin] at howner howned
  rw [hun] at hcount
  constructor
  case zombies_sub => exact h.zombies_sub
  case kids_pos => exact h.kids_pos
  case owner =>
    simp only [hwin']
    exact howner
  case owned =>
    simp only [hwin']
    exact howned
  case nopen_eq =>
    simp only [hun']
    exact hcount
  case place => exact hplace

-- What `accept` returns is stored in a slot that is not open, whether it is a descriptor or not.
theorem inv_accept (h : Inv own s) (hpc : s.pc = .accepting ci) (pc : Pc)
    (hwin : window { s with pc := pc } = none) (hun : uncounted pc = 0)
    (hplace' : ci < s.ncons ∧ s.isopen ci = false → AtPlace { s with pc := pc }) (fd : Int) :
    Inv own { s with cd := Function.update s.cd ci fd, pc := pc } := by
  have hplace := h.place
  simp only [AtPlace, hpc] at hplace
  have hgoto : Inv own { s with pc := pc } :=
    h.goto (by rw [window, hpc]) hwin (by rw [hpc]; rfl) hun (hplace' hplace)
  refine { hgoto with owner := ?_, owned := hgoto.owned, place := hgoto.place }
  intro i hi hopen hw
  have hne : i ≠ ci := by
    rintro rfl
    rw [hplace.2] at hopen
    cases hopen
  simp only [Function.update_of_ne hne]
  exact hgoto.owner i hi hopen hw

theorem inv_mark (h : Inv own s) (hpc : s.pc = .opening ci) :
    Inv own { s with isopen := Function.update s.isopen ci true, pc := .counting ci } := by
  have hplace := h.place
  have hcount := h.nopen_eq
  simp only [AtPlace, hpc] at hplace
  simp only [hpc, uncounted] at hcount
  constructor
  case zombies_sub => exact h.zombies_sub
  case kids_pos => exact h.kids_pos
  case owner =>
    intro i hi hopen hwin
    have hne : i ≠ ci := fun he ↦ hwin (he ▸ rfl)
    simp only [Function.update_of_ne hne] at hopen
    exact h.owner i hi hopen (by rw [window_opening hpc]; exact (Option.some_ne_none i).symm)
  case owned =>
    intro q hq
    rcases h.owned q hq with ⟨i, hi, hopen, _, hpid⟩
    have hne : i ≠ ci := by
      rintro rfl
      rw [hplace.2] at hopen
      cases hopen
    refine ⟨i, hi, (Function.update_of_ne hne ..).trans hopen, fun he ↦ hne ?_, hpid⟩
    cases he
    rfl
  case nopen_eq =>
    have hcard := usedSlots_take_card hplace.1 hplace.2
    simp only [uncounted]
    omega
  case place => exact ⟨hplace.1, Function.update_self ..⟩

theorem inv_count (h : Inv own s) (hpc : s.pc = .counting ci) :
    Inv own { s with nopen := s.nopen + 1, pc := .forking ci } := by
  have hplace := h.place
  have hcount := h.nopen_eq
  have howner := h.owner
  have howned := h.owned
  simp only [AtPlace, hpc] at hplace
  simp only [hpc, uncounted] at hcount
  rw [window_counting hpc] at howner howned
  constructor
  case zombies_sub => exact h.zombies_sub
  case kids_pos => exact h.kids_pos
  case owner => exact howner
  case owned => exact howned
  case nopen_eq =>
    simp only [uncounted]
    omega
  case place => exact hplace

/-- The new child is no other slot's, because its pid is that of no child that is still there. -/
theorem inv_fork (h : Inv own s) (hpc : s.pc = .forking ci) (hpos : 0 < q) (hnew : q ∉ s.kids) :
    Inv (forked_step own (.fork ci (s.cd ci) q))
      { s with pid := Function.update s.pid ci q, kids := insert q s.kids, pc := .forked ci } := by
  have hplace := h.place
  have hcount := h.nopen_eq
  have howner := h.owner
  have howned := h.owned
  simp only [AtPlace, hpc] at hplace
  simp only [hpc, uncounted] at hcount
  rw [window_forking hpc] at howner howned
  have hwin : window { s with
      pid := Function.update s.pid ci q, kids := insert q s.kids, pc := .forked ci } = none :=
    window_forked_pos rfl (show 0 < Function.update s.pid ci q ci by rwa [Function.update_self])
  constructor
  case zombies_sub => exact h.zombies_sub.trans (Finset.subset_insert ..)
  case kids_pos =>
    intro q' hq'
    rcases Finset.mem_insert.mp hq' with rfl | hq'
    · exact hpos
    · exact h.kids_pos q' hq'
  case owner =>
    intro i hi hopen _
    by_cases hic : i = ci
    · subst hic
      simp only [Function.update_self, forked_step]
      exact ⟨Finset.mem_insert_self .., trivial⟩
    · rcases howner i hi hopen fun he ↦ hic (Option.some.inj he).symm with ⟨hkid, hown⟩
      have hne : s.pid i ≠ q := by
        rintro rfl
        exact hnew hkid
      simp only [Function.update_of_ne hic, forked_step, Function.update_of_ne hne]
      exact ⟨Finset.mem_insert_of_mem hkid, hown⟩
  case owned =>
    rw [hwin]
    intro q' hq'
    rcases Finset.mem_insert.mp hq' with rfl | hq'
    · exact ⟨ci, hplace.1, hplace.2, nofun, Function.update_self ..⟩
    · rcases howned q' hq' with ⟨i, hi, hopen, hne, hpid⟩
      have hic : i ≠ ci := fun he ↦ hne (he ▸ rfl)
      exact ⟨i, hi, hopen, nofun, (Function.update_of_ne hic ..).trans hpid⟩
  case nopen_eq => exact hcount
  case place => trivial

/-- When `fork` fails the slot stays one that holds no child's pid. -/
theorem inv_fork_fails (h : Inv own s) (hpc : s.pc = .forking ci) :
    Inv own { s with pid := Function.update s.pid ci (-1), pc := .forked ci } := by
  have hcount := h.nopen_eq
  have howner := h.owner
  have howned := h.owned
  simp only [hpc, uncounted] at hcount
  rw [window_forking hpc] at howner howned
  have hwin : window { s with pid := Function.update s.pid ci (-1), pc := .forked ci } = some ci :=
    window_forked_neg rfl (show Function.update s.pid ci (-1) ci < 0 by
      rw [Function.update_self]; decide)
  constructor
  case zombies_sub => exact h.zombies_sub
  case kids_pos => exact h.kids_pos
  case owner =>
    rw [hwin]
    intro i hi hopen hne
    have hic : i ≠ ci := fun he ↦ hne (he ▸ rfl)
    simp only [Function.update_of_ne hic]
    exact howner i hi hopen hne
  case owned =>
    rw [hwin]
    intro q hq
    rcases howned q hq with ⟨i, hi, hopen, hne, hpid⟩
    have hic : i ≠ ci := fun he ↦ hne (he ▸ rfl)
    exact ⟨i, hi, hopen, hne, (Function.update_of_ne hic ..).trans hpid⟩
  case nopen_eq => exact hcount
  case place => trivial

/-- Every step keeps the invariant if the handler does not reap a child of another slot. -/
theorem inv_step (h : Inv own s) (hs : Step s e t) (hg : Harmless s e) : Inv (forked_step own e) t := by
  cases hs with
  | exit hq _ =>
    refine { h with zombies_sub := ?_, owner := h.owner, owned := h.owned, place := h.place }
    exact Finset.insert_subset hq h.zombies_sub
  | signal _ => exact { h with owner := h.owner, owned := h.owned, place := h.place }
  | skip _ _ _ => exact { h with owner := h.owner, owned := h.owned, place := h.place }
  | wait _ hci ho hw => exact (inv_turn h hci ho hw hg).1
  | finish _ _ => exact { h with owner := h.owner, owned := h.owned, place := h.place }
  | full _ hpc _ => exact h.goto (by rw [window, hpc]) rfl (by rw [hpc]; rfl) rfl trivial
  | room _ hpc hn =>
    refine h.goto (by rw [window, hpc]) rfl (by rw [hpc]; rfl) rfl ?_
    have hle := (h.accounts hpc).nopen_le
    show s.nopen < s.ncons
    omega
  | clean _ hpc => exact h.goto (by rw [window, hpc]) rfl (by rw [hpc]; rfl) rfl trivial
  | search _ hpc =>
    have hlt := h.slot_lt hpc
    exact h.goto (by rw [window, hpc]) rfl (by rw [hpc]; rfl) rfl ⟨hlt, firstFree_free hlt⟩
  | accept _ hpc _ => exact inv_accept h hpc (.opening _) rfl rfl (fun hplace ↦ hplace) _
  | refuse _ hpc => exact inv_accept h hpc .refused rfl rfl (fun _ ↦ trivial) _
  | mark _ hpc => exact inv_mark h hpc
  | count _ hpc => exact inv_count h hpc
  | fork _ hpc hpos hnew => exact inv_fork h hpc hpos hnew
  | fork_fails _ hpc => exact inv_fork_fails h hpc
  | parent _ hpc hpos =>
    exact h.goto (window_forked_pos hpc hpos) rfl (by rw [hpc]; rfl) rfl trivial

theorem freesOwn_step {es : List Event} (h : Inv (forkedFor es) s) (hs : Step s e t)
    (hg : Harmless s e) : FreesOwn es e := by
  intro ci fd q he hq
  cases hs with
  | wait _ hci ho hw =>
    cases he
    exact (inv_turn h hci ho hw hg).2 hq
  | _ => cases he

end Steps

/-! ## Every run -/

section Runs

variable {ncons : Nat} {pgrp : Int} {isopen : Nat → Bool} {cd pid : Nat → Int} {es : List Event}
  {s : State}

/-- The runs in which the handler never asks, for the open slot that holds no child's pid, for a child
that has exited are the runs that are right throughout: at the top of the loop `nopen` counts the open
slots, each of them holds the pid of a child that has not been reaped, and a slot is only ever freed
when its own child has been reaped. -/
theorem accounted_iff :
    GuardedRun Step (fun _ s e ↦ Harmless s e) (main_init ncons pgrp isopen cd pid) es s ↔
    KeepingRun Step Accounted (main_init ncons pgrp isopen cd pid) es s := by
  apply guardedRun_iff_keepingRun fun es s ↦ Inv (forkedFor es) s ∧ Always FreesOwn es
  · exact ⟨inv_main_init .., always_nil⟩
  · exact fun es s hi ↦ ⟨hi.1.accounts, hi.2⟩
  · intro es s e t hi hs hg
    rw [forkedFor_snoc]
    exact ⟨inv_step hi.1 hs hg, always_snoc.mpr ⟨hi.2, freesOwn_step hi.1 hs hg⟩⟩
  · intro es s e t hi hs hp
    by_contra hg
    have howns := (always_snoc.mp hp.2).2
    cases hs with
    | wait _ _ _ hw =>
      rcases frees_other hi.1 hw hg with ⟨hq, hne⟩
      exact hne (howns _ _ _ rfl hq)
    | _ => exact hg fun _ _ _ he ↦ by cases he

/-- A turn of the main loop that no signal interrupts. -/
theorem run_turn (hm : s.sweep = none) (hpc : s.pc = .top) (hn : s.nopen ≠ s.ncons) {ci : Nat}
    (hci : firstFree s.isopen s.ncons = ci) {fd q : Int} (hfd : 0 ≤ fd) (hq : 0 < q)
    (hnew : q ∉ s.kids) :
    Run Step s [.tau, .tau, .accept ci fd, .tau, .tau, .fork ci fd q, .tau] { s with
      nopen := s.nopen + 1
      isopen := Function.update s.isopen ci true
      cd := Function.update s.cd ci fd
      pid := Function.update s.pid ci q
      kids := insert q s.kids
      pc := .top } := by
  let a : State := { s with pc := .searching }
  let b : State := { a with pc := .accepting ci }
  let c : State := { b with cd := Function.update b.cd ci fd, pc := .opening ci }
  let d : State := { c with isopen := Function.update c.isopen ci true, pc := .counting ci }
  let e : State := { d with nopen := d.nopen + 1, pc := .forking ci }
  let f : State := { e with
    pid := Function.update e.pid ci q, kids := insert q e.kids, pc := .forked ci }
  have ha : Step s .tau a := .room hm hpc hn
  have hb : Step a .tau b := by
    have hstep := @Step.search a hm rfl
    rwa [show firstFree a.isopen a.ncons = ci from hci] at hstep
  have hc : Step b (.accept ci fd) c := .accept hm rfl hfd
  have hd : Step c .tau d := .mark hm rfl
  have he : Step d .tau e := .count hm rfl
  have hf : Step e (.fork ci fd q) f := by
    have hstep := @Step.fork e ci q hm rfl hq hnew
    rwa [show e.cd ci = fd from Function.update_self ..] at hstep
  have hpid : f.pid ci = q := Function.update_self ..
  have hg : Step f .tau { f with pc := .top } := .parent hm rfl (hpid ▸ hq)
  exact .cons ha (.cons hb (.cons hc (.cons hd (.cons he (.cons hf (.cons hg .nil))))))

/-- Two clients are served by the children 100 and 101, the slot of a third one is marked open, and
child 101 exits.  Child 100 exits when the handler has just asked for it. -/
def exits : List Event :=
  [.tau, .tau, .accept 0 4, .tau, .tau, .fork 0 4 100, .tau,
    .tau, .tau, .accept 1 5, .tau, .tau, .fork 1 5 101, .tau,
    .tau, .tau, .accept 2 6, .tau, .exit 101, .signal, .wait 0 4 0, .exit 100, .wait 1 5 101]

-- `malloc` left zeros in `pid`: `waitpid (0, ..)` reaps child 100, the third connection is closed, and
-- slot 0 keeps the pid of a child that is gone.
theorem third_client_closed :
    ∃ s, Run Step (main_init 3 90 (fun _ ↦ false) (fun _ ↦ 0) fun _ ↦ 0)
      (exits ++ [.wait 2 6 100, .tau, .tau, .fork 2 6 102, .tau]) s ∧
      forkedFor exits 100 = some (0, 4) ∧
      s.pc = .top ∧ s.isopen 0 = true ∧ s.pid 0 = 100 ∧ s.pid 0 ∉ s.kids := by
  let s₀ : State := main_init 3 90 (fun _ ↦ false) (fun _ ↦ 0) fun _ ↦ 0
  let a : State := { s₀ with
    nopen := 1
    isopen := Function.update s₀.isopen 0 true
    cd := Function.update s₀.cd 0 4
    pid := Function.update s₀.pid 0 100
    kids := {100} }
  let b : State := { a with
    nopen := 2
    isopen := Function.update a.isopen 1 true
    cd := Function.update a.cd 1 5
    pid := Function.update a.pid 1 101
    kids := {101, 100} }
  let b₁ : State := { b with pc := .searching }
  let b₂ : State := { b₁ with pc := .accepting 2 }
  let b₃ : State := { b₂ with cd := Function.update b₂.cd 2 6, pc := .opening 2 }
  let c : State := { b₃ with isopen := Function.update b₃.isopen 2 true, pc := .counting 2 }
  let c₁ : State := { c with zombies := {101} }
  let c₂ : State := { c₁ with sweep := some 0 }
  let c₃ : State := { c₂ with sweep := some 1 }
  let c₄ : State := { c₃ with zombies := {100, 101} }
  let c₅ : State := cleanupkids_turn c₄ 1 101
  let c₆ : State := cleanupkids_turn c₅ 2 100
  let c₇ : State := { c₆ with sweep := none }
  let c₈ : State := { c₇ with nopen := c₇.nopen + 1, pc := .forking 2 }
  let c₉ : State := { c₈ with
    pid := Function.update c₈.pid 2 102, kids := insert 102 c₈.kids, pc := .forked 2 }
  let d : State := { c₉ with pc := .top }
  have ha : Run Step s₀ [.tau, .tau, .accept 0 4, .tau, .tau, .fork 0 4 100, .tau] a :=
    run_turn rfl rfl (by decide) rfl (by decide) (by decide) (by decide)
  have hb : Run Step a [.tau, .tau, .accept 1 5, .tau, .tau, .fork 1 5 101, .tau] b :=
    run_turn rfl rfl (by decide) rfl (by decide) (by decide) (by decide)
  have hb₁ : Step b .tau b₁ := .room rfl rfl (by decide)
  have hb₂ : Step b₁ .tau b₂ := .search rfl rfl
  have hb₃ : Step b₂ (.accept 2 6) b₃ := .accept rfl rfl (by decide)
  have hc : Step b₃ .tau c := .mark rfl rfl
  have hc₁ : Step c (.exit 101) c₁ := .exit (by decide) (by decide)
  have hc₂ : Step c₁ .signal c₂ := .signal rfl
  have hc₃ : Step c₂ (.wait 0 4 0) c₃ := .wait rfl (by decide) rfl (by decide)
  have hc₄ : Step c₃ (.exit 100) c₄ := .exit (by decide) (by decide)
  have hc₅ : Step c₄ (.wait 1 5 101) c₅ := .wait rfl (by decide) rfl (by decide)
  have hc₆ : Step c₅ (.wait 2 6 100) c₆ := .wait rfl (by decide) rfl (by decide)
  have hc₇ : Step c₆ .tau c₇ := .finish rfl (by decide)
  have hc₈ : Step c₇ .tau c₈ := .count rfl rfl
  have hc₉ : Step c₈ (.fork 2 6 102) c₉ := .fork rfl rfl (by decide) (by decide)
  have hd : Step c₉ .tau d := .parent rfl rfl (by decide)
  have hexits : Run Step s₀ exits c₅ :=
    ((ha.append hb).append (.cons hb₁ (.cons hb₂ (.cons hb₃ (.cons hc .nil))))).append
      (.cons hc₁ (.cons hc₂ (.cons hc₃ (.cons hc₄ (.cons hc₅ .nil)))))
  have hrest : Run Step c₅ [.wait 2 6 100, .tau, .tau, .fork 2 6 102, .tau] d :=
    .cons hc₆ (.cons hc₇ (.cons hc₈ (.cons hc₉ (.cons hd .nil))))
  exact ⟨d, hexits.append hrest, by decide, rfl, rfl, rfl, by decide⟩

end Runs

end OK210Drivers.Server.Fork
