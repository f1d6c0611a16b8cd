import OK210Drivers.Server.PthreadHolders

/-!
# Whose connection a worker closes

A worker frees its slot before it takes the lock, and closes what is in `cd[ci]` after that.  As long as
`accept` is never assigned to a slot in between, every connection keeps its one holder.
-/

open Library

namespace OK210Drivers.Server.Pthread

/-- What is closed is the worker's own connection. -/
def ClosesOwn (pre : List Event) (e : Event) : Prop :=
  ∀ w ci fd, e = .close w ci fd → (connections pre).own w = some fd

/-- What is closed has been accepted and not been closed before. -/
def ClosesOnce (pre : List Event) (e : Event) : Prop :=
  ∀ w ci fd, e = .close w ci fd → Live pre fd

/-- When `cd[ci]` is assigned every worker of the slot has closed its connection. -/
def ReassignsClosed (pre : List Event) (e : Event) : Prop :=
  ∀ ci fd, e = .accept ci fd → ∀ w, .create w ci ∈ pre → ∃ cj fd', .close w cj fd' ∈ pre

def Faithful (pre : List Event) (e : Event) : Prop :=
  ClosesOwn pre e ∧ ClosesOnce pre e ∧ ReassignsClosed pre e

/-- When `accept` is assigned to slot `ci` no worker has freed the slot and not yet taken the lock. -/
def Apart (s : State) (e : Event) : Prop :=
  ∀ ci fd, e = .accept ci fd → ∀ w ∈ s.threads, s.worker w ≠ .closing ci

/-! ## The invariant -/

-- The worker has freed its slot.
def freed : WorkerPc → Bool
  | .closing _ => true
  | _ => false

-- Between the addition to `nopen` and the creation of the worker.
def counted : Pc → Nat
  | .storing _ => 1
  | .creating _ => 1
  | _ => 0

def AtPlace (s : State) : Prop :=
  match s.pc with
  | .top => s.nopen ≤ s.ncons
  | .searching ci => s.nopen < s.ncons ∧ ∃ j, ci ≤ j ∧ j < s.ncons ∧ s.isopen j = false
  | .accepting ci => s.nopen < s.ncons ∧ s.isopen ci = false
  | .opening ci => s.nopen < s.ncons ∧ s.isopen ci = false
  | .counting ci => s.nopen < s.ncons ∧ s.isopen ci = true
  | .storing ci => s.nopen ≤ s.ncons ∧ s.isopen ci = true
  | .creating ci => s.nopen ≤ s.ncons ∧ s.isopen ci = true ∧ s.thread_data ci = ci

structure Inv (es : List Event) (s : State) : Prop where
  held : Held es s
  numbered : Numbered es s
  nopen_eq : s.nopen = s.threads.card + counted s.pc
  arg : ∀ w ∈ s.threads, ∀ ci, s.worker w = .start ci → s.thread_data ci = ci
  marked : ∀ w ∈ s.threads, s.isopen (s.worker w).slot = !freed (s.worker w)
  holder : ∀ i < s.ncons, s.isopen i = true → ∃ x, holds s x = some i
  place : AtPlace s

section Steps

variable {es : List Event} {s t : State} {e : Event} {w ci : Nat} {fd : Int}

theorem closing_of_freed {p : WorkerPc} (h : freed p = true) : p = .closing p.slot := by
  cases p with
  | closing ci => rfl
  | _ => cases h

/-- The slot to which `accept` is assigned has no holder, if no worker is about to close it. -/
theorem Inv.unheld (h : Inv es s) (hpc : s.pc = .accepting ci)
    (hg : ∀ w ∈ s.threads, s.worker w ≠ .closing ci) (x : Option Nat) : holds s x ≠ some ci := by
  have hplace := h.place
  simp only [AtPlace, hpc] at hplace
  intro hx
  cases x with
  | none =>
    simp only [holds, hpc, mainSlot] at hx
    cases hx
  | some w =>
    rcases holds_worker_iff.mp hx with ⟨hw, rfl⟩
    have hmarked := h.marked w hw
    rw [hplace.2] at hmarked
    exact hg w hw (closing_of_freed (by simpa using hmarked))

theorem inv_main_init (ncons : Nat) (isopen : Nat → Bool) (cd : Nat → Int) (thread_data : Nat → Nat)
    (fds : Finset Int) : Inv [] (main_init ncons isopen cd thread_data fds) := by
  have hnone : ∀ x ci, holds (main_init ncons isopen cd thread_data fds) x ≠ some ci := by
    intro x ci hx
    cases x with
    | none => cases hx
    | some w => exact absurd (holds_worker_iff.mp hx).1 (Finset.notMem_empty w)
  have hfree : ∀ i < ncons, (main_init ncons isopen cd thread_data fds).isopen i = false :=
    fun i hi ↦ if_pos hi
  constructor
  case held =>
    constructor
    case inj => exact fun x _ ci _ hx ↦ absurd hx (hnone x ci)
    case live => exact fun x ci hx ↦ absurd hx (hnone x ci)
    case own => exact fun _ ci hx ↦ absurd hx (hnone _ ci)
    case last => exact fun ci hx ↦ absurd hx (hnone _ ci)
  case numbered =>
    constructor
    case created_lt => exact fun w hw ↦ absurd hw (Finset.notMem_empty w)
    case create_lt => exact fun _ _ hm ↦ absurd hm (List.not_mem_nil)
    case close_lt => exact fun _ _ _ hm ↦ absurd hm (List.not_mem_nil)
    case slot_eq => exact fun w hw ↦ absurd hw (Finset.notMem_empty w)
    case unclosed => exact fun w hw ↦ absurd hw (Finset.notMem_empty w)
    case ended => exact fun _ _ hm ↦ absurd hm (List.not_mem_nil)
  case nopen_eq => rfl
  case arg => exact fun w hw ↦ absurd hw (Finset.notMem_empty w)
  case marked => exact fun w hw ↦ absurd hw (Finset.notMem_empty w)
  case holder =>
    intro i hi hopen
    rw [hfree i hi] at hopen
    cases hopen
  case place => exact Int.natCast_nonneg ncons

/-- A slot is free as long as `nopen` says that there is room. -/
theorem Inv.exists_free (h : Inv es s) (hpc : s.pc = .top) (hn : s.nopen ≠ s.ncons) :
    ∃ j < s.ncons, s.isopen j = false := by
  have hplace := h.place
  have hcount := h.nopen_eq
  simp only [AtPlace, hpc] at hplace
  simp only [hpc, counted] at hcount
  have hsub : usedSlots s.isopen s.ncons ⊆ s.threads.image fun w ↦ (s.worker w).slot := by
    intro i hi
    rcases mem_usedSlots.mp hi with ⟨hi, hopen⟩
    rcases h.holder i hi hopen with ⟨x, hx⟩
    cases x with
    | none =>
      simp only [holds, hpc] at hx
      cases hx
    | some w =>
      rcases holds_worker_iff.mp hx with ⟨hw, hslot⟩
      exact Finset.mem_image.mpr ⟨w, hw, hslot⟩
  have hcard := (Finset.card_le_card hsub).trans Finset.card_image_le
  have hlt : firstFree s.isopen s.ncons < s.ncons := firstFree_lt (by omega)
  exact ⟨_, hlt, firstFree_free hlt⟩

/-- The main thread goes on without touching what it shares with the workers. -/
theorem Inv.goto (h : Inv es s) {pc : Pc} (hmain : mainSlot pc = mainSlot s.pc)
    (hcount : counted pc = counted s.pc) (hplace : AtPlace { s with pc := pc }) :
    Inv (es ++ [.tau]) { s with pc := pc } where
  held := h.held.tau hmain rfl (fun _ _ ↦ rfl) rfl rfl
  numbered := h.numbered.other nofun nofun rfl (fun _ _ ↦ rfl) rfl
  nopen_eq := hcount ▸ h.nopen_eq
  arg := h.arg
  marked := h.marked
  holder := by
    rw [holds_eq (t := { s with pc := pc }) hmain rfl fun _ _ ↦ rfl]
    exact h.holder
  place := hplace

-- A worker of the slot the main thread is busy with has ended.
theorem Inv.slot_ne (h : Inv es s) (hmain : mainSlot s.pc = some ci) (hw : w ∈ s.threads) :
    (s.worker w).slot ≠ ci := by
  rintro rfl
  have hx := h.held.inj none (some w) _ _ hmain (holds_worker hw) rfl
  cases hx

theorem Inv.worker_ne (h : Inv es s) (hw : w ∈ s.threads) {v : Nat} (hv : v ∈ s.threads)
    (hne : v ≠ w) : (s.worker v).slot ≠ (s.worker w).slot := by
  intro he
  have hx := h.held.inj (some v) (some w) _ _ (holds_worker hv) (holds_worker hw) (by rw [he])
  cases hx
  exact hne rfl

theorem inv_accept (h : Inv es s) (hpc : s.pc = .accepting ci) (hfd : AcceptNew s.fds fd)
    (hg : ∀ w ∈ s.threads, s.worker w ≠ .closing ci) : Inv (es ++ [.accept ci fd]) { s with
      fds := insert fd s.fds
      cd := Function.update s.cd ci fd
      pc := .opening ci } := by
  have hplace := h.place
  have hcount := h.nopen_eq
  simp only [AtPlace, hpc] at hplace
  simp only [hpc, counted] at hcount
  constructor
  case held => exact h.held.accept (h.unheld hpc hg) hfd.2
  case numbered => exact h.numbered.other nofun nofun rfl (fun _ _ ↦ rfl) rfl
  case nopen_eq => exact hcount
  case arg => exact h.arg
  case marked => exact h.marked
  case holder =>
    intro i hi hopen
    rcases h.holder i hi hopen with ⟨x, hx⟩
    cases x with
    | none =>
      simp only [holds, hpc] at hx
      cases hx
    | some w => exact ⟨some w, hx⟩
  case place => exact hplace

theorem inv_mark (h : Inv es s) (hpc : s.pc = .opening ci) :
    Inv (es ++ [.tau]) { s with isopen := Function.update s.isopen ci true, pc := .counting ci } := by
  have hplace := h.place
  have hcount := h.nopen_eq
  have hmain : mainSlot s.pc = some ci := by rw [hpc]; rfl
  simp only [AtPlace, hpc] at hplace
  simp only [hpc, counted] at hcount
  constructor
  case held => exact h.held.tau hmain.symm rfl (fun _ _ ↦ rfl) rfl rfl
  case numbered => exact h.numbered.other nofun nofun rfl (fun _ _ ↦ rfl) rfl
  case nopen_eq => exact hcount
  case arg => exact h.arg
  case marked =>
    intro w hw
    simp only [Function.update_of_ne (h.slot_ne hmain hw)]
    exact h.marked w hw
  case holder =>
    intro i hi hopen
    by_cases hic : i = ci
    · exact ⟨none, hic ▸ rfl⟩
    · simp only [Function.update_of_ne hic] at hopen
      rcases h.holder i hi hopen with ⟨x, hx⟩
      cases x with
      | none =>
        have he := hx.symm.trans hmain
        cases he
        exact absurd rfl hic
      | some w => exact ⟨some w, hx⟩
  case place => exact ⟨hplace.1, Function.update_self ..⟩

theorem inv_count (h : Inv es s) (hpc : s.pc = .counting ci) :
    Inv (es ++ [.tau]) { s with nopen := s.nopen + 1, pc := .storing ci } := by
  have hplace := h.place
  have hcount := h.nopen_eq
  have hmain : mainSlot s.pc = some ci := by rw [hpc]; rfl
  simp only [AtPlace, hpc] at hplace
  simp only [hpc, counted] at hcount
  constructor
  case held => exact h.held.tau hmain.symm rfl (fun _ _ ↦ rfl) rfl rfl
  case numbered => exact h.numbered.other nofun nofun rfl (fun _ _ ↦ rfl) rfl
  case nopen_eq =>
    simp only [counted]
    omega
  case arg => exact h.arg
  case marked => exact h.marked
  case holder =>
    rw [holds_eq (t := { s with nopen := s.nopen + 1, pc := .storing ci }) hmain.symm rfl fun _ _ ↦ rfl]
    exact h.holder
  case place =>
    refine ⟨?_, hplace.2⟩
    simp only
    omega

theorem inv_store (h : Inv es s) (hpc : s.pc = .storing ci) : Inv (es ++ [.tau])
    { s with thread_data := Function.update s.thread_data ci ci, pc := .creating ci } := by
  have hplace := h.place
  have hcount := h.nopen_eq
  have hmain : mainSlot s.pc = some ci := by rw [hpc]; rfl
  simp only [AtPlace, hpc] at hplace
  simp only [hpc, counted] at hcount
  constructor
  case held => exact h.held.tau hmain.symm rfl (fun _ _ ↦ rfl) rfl rfl
  case numbered => exact h.numbered.other nofun nofun rfl (fun _ _ ↦ rfl) rfl
  case nopen_eq => exact hcount
  case arg =>
    intro w hw cj hstart
    by_cases hjc : cj = ci
    · subst hjc
      exact Function.update_self ..
    · simp only [Function.update_of_ne hjc]
      exact h.arg w hw cj hstart
  case marked => exact h.marked
  case holder =>
    rw [holds_eq (t := { s with
      thread_data := Function.update s.thread_data ci ci
      pc := .creating ci }) hmain.symm rfl fun _ _ ↦ rfl]
    exact h.holder
  case place => exact ⟨hplace.1, hplace.2, Function.update_self ..⟩

theorem inv_create (h : Inv es s) (hpc : s.pc = .creating ci) :
    Inv (es ++ [.create s.created ci]) { s with
      threads := insert s.created s.threads
      worker := Function.update s.worker s.created (.start ci)
      created := s.created + 1
      pc := .top } := by
  have hplace := h.place
  have hcount := h.nopen_eq
  have hmain : mainSlot s.pc = some ci := by rw [hpc]; rfl
  simp only [AtPlace, hpc] at hplace
  simp only [hpc, counted] at hcount
  have hfresh : s.created ∉ s.threads := fun hw ↦ Nat.lt_irrefl _ (h.numbered.created_lt _ hw)
  have hne : ∀ w ∈ s.threads, w ≠ s.created := fun w hw ↦ (h.numbered.created_lt w hw).ne
  constructor
  case held => exact h.held.create h.numbered hpc
  case numbered => exact h.numbered.create
  case nopen_eq =>
    simp only [Finset.card_insert_of_notMem hfresh, counted]
    omega
  case arg =>
    intro w hw cj hstart
    rcases Finset.mem_insert.mp hw with rfl | hw
    · simp only [Function.update_self] at hstart
      cases hstart
      exact hplace.2.2
    · simp only [Function.update_of_ne (hne w hw)] at hstart
      exact h.arg w hw cj hstart
  case marked =>
    intro w hw
    rcases Finset.mem_insert.mp hw with rfl | hw
    · simp only [Function.update_self]
      exact hplace.2.1
    · simp only [Function.update_of_ne (hne w hw)]
      exact h.marked w hw
  case holder =>
    intro i hi hopen
    rcases h.holder i hi hopen with ⟨x, hx⟩
    cases x with
    | none =>
      have he := hx.symm.trans hmain
      cases he
      refine ⟨some s.created, holds_worker_iff.mpr ⟨Finset.mem_insert_self .., ?_⟩⟩
      simp only [Function.update_self]
      rfl
    | some w =>
      rcases holds_worker_iff.mp hx with ⟨hw, hslot⟩
      refine ⟨some w, holds_worker_iff.mpr ⟨Finset.mem_insert_of_mem hw, ?_⟩⟩
      simp only [Function.update_of_ne (hne w hw)]
      exact hslot
  case place => exact hplace.1

/-- A worker goes on in its slot, and frees the slot when `p` says so. -/
theorem inv_worker (h : Inv es s) (hw : w ∈ s.threads) {p : WorkerPc} (hbusy : freed (s.worker w) = false)
    (hslot : p.slot = (s.worker w).slot) (hstart : ∀ ci, p ≠ .start ci) :
    Inv (es ++ [.tau]) { s with
      isopen := Function.update s.isopen p.slot (!freed p)
      worker := Function.update s.worker w p } := by
  have hslots : ∀ v ∈ s.threads, (Function.update s.worker w p v).slot = (s.worker v).slot := by
    intro v _
    by_cases hvw : v = w
    · rw [hvw, Function.update_self, hslot]
    · rw [Function.update_of_ne hvw]
  have hopen : s.isopen p.slot = true := by
    rw [hslot, h.marked w hw, hbusy]
    rfl
  have hclosed : ∀ i, s.isopen i = false → Function.update s.isopen p.slot (!freed p) i = false := by
    intro i hi
    have hne : i ≠ p.slot := by
      rintro rfl
      rw [hopen] at hi
      cases hi
    rwa [Function.update_of_ne hne]
  have hmain : ∀ i, mainSlot s.pc = some i → s.isopen i = true →
      Function.update s.isopen p.slot (!freed p) i = true := by
    intro i hi hiopen
    have hne := h.slot_ne hi hw
    rw [← hslot] at hne
    rwa [Function.update_of_ne hne.symm]
  constructor
  case held => exact h.held.tau rfl rfl hslots rfl rfl
  case numbered => exact h.numbered.other nofun nofun rfl hslots rfl
  case nopen_eq => exact h.nopen_eq
  case arg =>
    intro v hv cj hv'
    by_cases hvw : v = w
    · subst hvw
      simp only [Function.update_self] at hv'
      exact absurd hv' (hstart cj)
    · simp only [Function.update_of_ne hvw] at hv'
      exact h.arg v hv cj hv'
  case marked =>
    intro v hv
    by_cases hvw : v = w
    · subst hvw
      simp only [Function.update_self]
    · have hne := h.worker_ne hw hv hvw
      rw [← hslot] at hne
      simp only [Function.update_of_ne hvw, Function.update_of_ne hne]
      exact h.marked v hv
  case holder =>
    intro i hi hiopen
    have hbefore : s.isopen i = true := by
      by_contra hno
      exact Bool.false_ne_true ((hclosed i (Bool.eq_false_of_not_eq_true hno)).symm.trans hiopen)
    rw [holds_eq (s := s) (t := { s with
      isopen := Function.update s.isopen p.slot (!freed p)
      worker := Function.update s.worker w p }) rfl rfl hslots]
    exact h.holder i hi hbefore
  case place =>
    have hplace := h.place
    unfold AtPlace at hplace ⊢
    generalize s.pc = pc at hplace hmain ⊢
    cases pc with
    | top => exact hplace
    | searching ci =>
      rcases hplace with ⟨hn, j, hcj, hj, hfree⟩
      exact ⟨hn, j, hcj, hj, hclosed j hfree⟩
    | accepting ci => exact ⟨hplace.1, hclosed ci hplace.2⟩
    | opening ci => exact ⟨hplace.1, hclosed ci hplace.2⟩
    | counting ci => exact ⟨hplace.1, hmain ci rfl hplace.2⟩
    | storing ci => exact ⟨hplace.1, hmain ci rfl hplace.2⟩
    | creating ci => exact ⟨hplace.1, hmain ci rfl hplace.2.1, hplace.2.2⟩

-- A worker goes on in its slot and keeps it.
theorem inv_keep (h : Inv es s) (hw : w ∈ s.threads) {p : WorkerPc} (hbusy : freed (s.worker w) = false)
    (hkeep : freed p = false) (hslot : p.slot = (s.worker w).slot) (hstart : ∀ ci, p ≠ .start ci) :
    Inv (es ++ [.tau]) { s with worker := Function.update s.worker w p } := by
  have hnext := inv_worker h hw hbusy hslot hstart
  have hopen : s.isopen p.slot = true := by
    rw [hslot, h.marked w hw, hbusy]
    rfl
  have hsame : Function.update s.isopen p.slot (!freed p) = s.isopen := by
    rw [hkeep, Bool.not_false, ← hopen, Function.update_eq_self]
  rwa [hsame] at hnext

theorem inv_close (h : Inv es s) (hw : w ∈ s.threads) (hpc : s.worker w = .closing ci) :
    Inv (es ++ [.close w ci (s.cd ci)]) (close_section s w ci) := by
  have hhold : holds s (some w) = some ci := holds_worker_iff.mpr ⟨hw, by rw [hpc]; rfl⟩
  have hcount := h.nopen_eq
  have hcard := Finset.card_erase_add_one hw
  have hmarked := h.marked w hw
  rw [hpc] at hmarked
  constructor
  case held => exact h.held.close hhold
  case numbered => exact h.numbered.close hw
  case nopen_eq =>
    simp only [close_section]
    omega
  case arg => exact fun v hv ↦ h.arg v (Finset.mem_of_mem_erase hv)
  case marked => exact fun v hv ↦ h.marked v (Finset.mem_of_mem_erase hv)
  case holder =>
    intro i hi hopen
    rcases h.holder i hi hopen with ⟨x, hx⟩
    refine ⟨x, ?_⟩
    cases x with
    | none => exact hx
    | some v =>
      rcases holds_worker_iff.mp hx with ⟨hv, rfl⟩
      have hvw : v ≠ w := by
        rintro rfl
        rw [hpc] at hopen
        exact Bool.false_ne_true (hmarked.symm.trans hopen)
      exact holds_worker_iff.mpr ⟨Finset.mem_erase.mpr ⟨hvw, hv⟩, rfl⟩
  case place =>
    have hplace := h.place
    unfold AtPlace at hplace ⊢
    simp only [close_section]
    generalize s.pc = pc at hplace ⊢
    cases pc with
    | top =>
      simp only at hplace ⊢
      omega
    | _ =>
      refine ⟨?_, hplace.2⟩
      have hn := hplace.1
      omega

/-- Every step keeps the invariant if `accept` is not assigned to the slot of a worker that is about to
close its connection. -/
theorem inv_step (h : Inv es s) (hs : Step s e t) (hg : Apart s e) : Inv (es ++ [e]) t := by
  cases hs with
  | full _ _ => exact h.goto rfl rfl h.place
  | room hpc hn =>
    have hplace := h.place
    simp only [AtPlace, hpc] at hplace
    rcases h.exists_free hpc hn with ⟨j, hj, hfree⟩
    refine h.goto (by rw [hpc]; rfl) (by rw [hpc]; rfl) ⟨?_, j, Nat.zero_le j, hj, hfree⟩
    simp only
    omega
  | @taken ci hpc hci ho =>
    have hplace := h.place
    simp only [AtPlace, hpc] at hplace
    rcases hplace with ⟨hn, j, hcj, hj, hfree⟩
    have hne : ci ≠ j := by
      rintro rfl
      rw [hfree] at ho
      cases ho
    exact h.goto (by rw [hpc]; rfl) (by rw [hpc]; rfl) ⟨hn, j, by omega, hj, hfree⟩
  | found hpc _ ho =>
    have hplace := h.place
    simp only [AtPlace, hpc] at hplace
    exact h.goto (by rw [hpc]; rfl) (by rw [hpc]; rfl) ⟨hplace.1, ho⟩
  | missed hpc hci =>
    have hplace := h.place
    simp only [AtPlace, hpc] at hplace
    rcases hplace with ⟨_, j, hcj, hj, _⟩
    omega
  | accept hpc hfd => exact inv_accept h hpc hfd (hg _ _ rfl)
  | mark hpc => exact inv_mark h hpc
  | count hpc => exact inv_count h hpc
  | store hpc => exact inv_store h hpc
  | create hpc => exact inv_create h hpc
  | read hw hpc =>
    have harg := h.arg _ hw _ hpc
    rw [harg]
    exact inv_keep h hw (by rw [hpc]; rfl) rfl (by rw [hpc]; rfl) nofun
  | serve _ _ _ => exact h.goto rfl rfl h.place
  | shutdown hw hpc _ => exact inv_keep h hw (by rw [hpc]; rfl) rfl (by rw [hpc]; rfl) nofun
  | unmark hw hpc => exact inv_worker h hw (by rw [hpc]; rfl) (p := .closing _) (by rw [hpc]; rfl) nofun
  | close hw hpc => exact inv_close h hw hpc

theorem faithful_step (h : Inv es s) (hs : Step s e t) (hg : Apart s e) : Faithful es e := by
  refine ⟨?_, ?_, ?_⟩
  · intro w ci fd he
    cases hs with
    | close hw hpc =>
      cases he
      exact h.held.own w ci (holds_worker_iff.mpr ⟨hw, by rw [hpc]; rfl⟩)
    | _ => cases he
  · intro w ci fd he
    cases hs with
    | close hw hpc =>
      cases he
      exact (h.held.live (some w) ci (holds_worker_iff.mpr ⟨hw, by rw [hpc]; rfl⟩)).2
    | _ => cases he
  · intro ci fd he w hm
    cases hs with
    | accept hpc _ =>
      cases he
      have hw : w ∉ s.threads := by
        intro hw
        have hslot := (h.numbered.slot_eq w hw ci).mp hm
        exact h.unheld hpc (hg _ _ rfl) (some w) (holds_worker_iff.mpr ⟨hw, hslot.symm⟩)
      exact h.numbered.ended w ci hm hw
    | _ => cases he

/-- Assigned to a slot whose worker is about to close, `cd[ci]` loses that worker's connection. -/
theorem reassigned (h : Inv es s) (hg : ¬Apart s e) : ¬ReassignsClosed es e := by
  simp only [Apart, not_forall, not_not] at hg
  rcases hg with ⟨ci, fd, rfl, w, hw, hpc⟩
  intro hre
  have hm := (h.numbered.slot_eq w hw ci).mpr (by rw [hpc]; rfl)
  rcases hre ci fd rfl w hm with ⟨cj, fd', hc⟩
  exact h.numbered.unclosed w hw cj fd' hc

end Steps

/-! ## Every run -/

section Runs

variable {ncons : Nat} {isopen : Nat → Bool} {cd : Nat → Int} {thread_data : Nat → Nat}
  {fds : Finset Int} {es : List Event} {s : State}

/-- The runs in which `accept` is never assigned to a slot between the statement with which its worker
frees it and the worker's section are the runs in which every worker closes its own connection, no
connection is closed twice, and no `cd[ci]` is reassigned that has still to be closed. -/
theorem closes_own_iff :
    GuardedRun Step (fun _ s e ↦ Apart s e) (main_init ncons isopen cd thread_data fds) es s ↔
    KeepingRun Step (fun es _ ↦ Always Faithful es) (main_init ncons isopen cd thread_data fds) es s := by
  apply guardedRun_iff_keepingRun fun es s ↦ Inv es s ∧ Always Faithful es
  · exact ⟨inv_main_init .., always_nil⟩
  · exact fun es s hi ↦ hi.2
  · intro es s e t hi hs hg
    exact ⟨inv_step hi.1 hs hg, always_snoc.mpr ⟨hi.2, faithful_step hi.1 hs hg⟩⟩
  · intro es s e t hi hs hp
    by_contra hg
    exact reassigned hi.1 hg (always_snoc.mp hp).2.2.2

/-- The first client comes and goes, and its worker frees slot 0; the second client, with descriptor 5,
gets the slot before the worker takes the lock. -/
def reuse : List Event :=
  [.tau, .tau, .accept 0 4, .tau, .tau, .tau, .create 0 0, .tau, .tau, .tau, .tau, .tau, .accept 0 5]

-- The worker closes descriptor 5, which is the second client's, and 4 stays open.
theorem second_client_closed :
    ∃ s, Run Step (main_init 2 (fun _ ↦ false) (fun _ ↦ 0) (fun _ ↦ 0) {0, 1, 2, 3})
      (reuse ++ [.close 0 0 5]) s ∧
      (connections reuse).own 0 = some 4 ∧ 4 ∈ s.fds ∧ 5 ∉ s.fds ∧ s.cd 0 = 5 ∧ s.threads = ∅ := by
  let s₀ : State := main_init 2 (fun _ ↦ false) (fun _ ↦ 0) (fun _ ↦ 0) {0, 1, 2, 3}
  let a : State := { s₀ with
    nopen := 1
    isopen := Function.update s₀.isopen 0 true
    cd := Function.update s₀.cd 0 4
    thread_data := Function.update s₀.thread_data 0 0
    fds := {4, 0, 1, 2, 3}
    created := 1
    threads := {0}
    worker := Function.update s₀.worker 0 (.start 0) }
  let a₁ : State := { a with worker := Function.update a.worker 0 (.serving 0) }
  let a₂ : State := { a₁ with worker := Function.update a₁.worker 0 (.terminating 0) }
  let b : State := { a₂ with
    isopen := Function.update a₂.isopen 0 false
    worker := Function.update a₂.worker 0 (.closing 0) }
  let c : State := { b with
    cd := Function.update b.cd 0 5
    fds := {5, 4, 0, 1, 2, 3}
    pc := .opening 0 }
  have ha : Run Step s₀ [.tau, .tau, .accept 0 4, .tau, .tau, .tau, .create 0 0] a :=
    .cons (.room rfl (by decide)) (.cons (.found rfl (by decide) rfl)
      (.cons (.accept rfl ⟨by decide, by decide⟩) (.cons (.mark rfl) (.cons (.count rfl)
        (.cons (.store rfl) (.cons (.create rfl) .nil))))))
  have hread : Step a .tau a₁ := @Step.read a 0 0 (by decide) rfl
  have hshutdown : Step a₁ .tau a₂ := @Step.shutdown a₁ 0 0 0 (by decide) rfl (by decide)
  have hunmark : Step a₂ .tau b := @Step.unmark a₂ 0 0 (by decide) rfl
  have hb : Run Step a [.tau, .tau, .tau] b := .cons hread (.cons hshutdown (.cons hunmark .nil))
  have hc : Run Step b [.tau, .tau, .accept 0 5] c :=
    .cons (.room rfl (by decide)) (.cons (.found rfl (by decide) rfl)
      (.cons (.accept rfl ⟨by decide, by decide⟩) .nil))
  have hclose : Step c (.close 0 0 5) (close_section c 0 0) := .close (by decide) rfl
  exact ⟨close_section c 0 0, .snoc ((ha.append hb).append hc) hclose, rfl, by decide, by decide, rfl,
    by decide⟩

end Runs

end OK210Drivers.Server.Pthread
