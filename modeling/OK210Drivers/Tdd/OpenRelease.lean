import OK210Drivers.Library.Runs
import OK210Drivers.Tdd.Driver

/-!
# Opening and releasing the tdd device

Minor 0 is the writer's side and minor 1 the reader's.  `write_busy` follows the open handles of its
side; `read_busy` is never set, so a second reader is turned away by nothing.
-/

open Library

namespace OK210Drivers.Tdd

def TDD_WRITE : Nat := 0
def TDD_READ : Nat := 1
def ENXIO : Int := 6
def EBUSY : Int := 16

/-- `tdd_open(inode, file)` on the node with this minor number. -/
def tdd_open (s : State) (minor : Nat) : Int × State :=
  if minor = TDD_WRITE then
    if s.write_busy then (-EBUSY, s) else (0, { s with write_busy := true })
  else if minor = TDD_READ then
    -- the flag is written FALSE here
    if s.read_busy then (-EBUSY, s) else (0, { s with read_busy := false })
  else (- ENXIO, s)

/-- `tdd_release(inode, file)`. -/
def tdd_release (s : State) (minor : Nat) : Int × State :=
  if minor = TDD_WRITE then (0, { s with write_busy := false })
  else if minor = TDD_READ then (0, { s with read_busy := false })
  else (0, s)

namespace Open

/-- A `struct file` that an open has handed out. -/
structure Handle where
  client : Nat
  minor : Nat
  deriving DecidableEq

/-- The number of open handles on a minor. -/
def opens (handles : List Handle) (minor : Nat) : Nat := handles.countP fun h ↦ h.minor = minor

structure System where
  drv : State
  handles : List Handle

/-- The module as it has been loaded. -/
def start (s : State) : System := ⟨tdd_init s, []⟩

/-- A call with its return value. -/
inductive Event
  | open_ (client minor : Nat) (ret : Int)
  | release (h : Handle) (ret : Int)

inductive Step : System → Event → System → Prop
  | opened {s : System} {drv : State} (client minor : Nat) : tdd_open s.drv minor = (0, drv) →
      Step s (.open_ client minor 0) ⟨drv, ⟨client, minor⟩ :: s.handles⟩
  | refused {s : System} {drv : State} {ret : Int} (client minor : Nat) :
      tdd_open s.drv minor = (ret, drv) → ret ≠ 0 → Step s (.open_ client minor ret) ⟨drv, s.handles⟩
  | released {s : System} {drv : State} {ret : Int} (h : Handle) : h ∈ s.handles →
      tdd_release s.drv h.minor = (ret, drv) → Step s (.release h ret) ⟨drv, s.handles.erase h⟩

/-- At most one handle is open on each side, and an open is refused as busy when there is one
already, and only then. -/
structure Exclusive (s : System) (e : Event) (t : System) : Prop where
  one_writer : opens t.handles TDD_WRITE ≤ 1
  one_reader : opens t.handles TDD_READ ≤ 1
  busy : ∀ client minor ret, e = .open_ client minor ret → (ret = -EBUSY ↔ 0 < opens s.handles minor)

/-- No open of the reader's side comes while a handle of that side is open. -/
def ReaderAlone (_ : List Event) (s : System) (e : Event) : Prop :=
  ∀ client ret, e = .open_ client TDD_READ ret → opens s.handles TDD_READ = 0

section Count

variable {handles : List Handle} {h : Handle} {minor : Nat}

theorem opens_cons : opens (h :: handles) minor =
    opens handles minor + if h.minor = minor then 1 else 0 := by
  unfold opens
  rw [List.countP_cons]
  simp only [decide_eq_true_eq]

theorem opens_erase (hmem : h ∈ handles) :
    opens handles minor = opens (handles.erase h) minor + if h.minor = minor then 1 else 0 := by
  unfold opens
  rw [(List.perm_cons_erase hmem).countP_eq, List.countP_cons]
  simp only [decide_eq_true_eq]

end Count

section Calls

variable {s s' : State} {minor : Nat} {ret : Int}

-- What an open can do, side by side.
theorem tdd_open_cases (h : tdd_open s minor = (ret, s')) :
    minor = TDD_WRITE ∧ (ret = -EBUSY ∧ s.write_busy = true ∧ s' = s ∨
        ret = 0 ∧ s.write_busy = false ∧ s' = { s with write_busy := true }) ∨
    minor = TDD_READ ∧ (ret = -EBUSY ∧ s.read_busy = true ∧ s' = s ∨
        ret = 0 ∧ s.read_busy = false ∧ s' = s) ∨
    (minor ≠ TDD_WRITE ∧ minor ≠ TDD_READ) ∧ ret = - ENXIO ∧ s' = s := by
  unfold tdd_open at h
  by_cases hw : minor = TDD_WRITE
  · rw [if_pos hw] at h
    refine Or.inl ⟨hw, ?_⟩
    cases hb : s.write_busy <;> simp_all
  · rw [if_neg hw] at h
    by_cases hr : minor = TDD_READ
    · rw [if_pos hr] at h
      refine Or.inr (Or.inl ⟨hr, ?_⟩)
      cases hb : s.read_busy
      · rw [hb, if_neg Bool.false_ne_true, Prod.mk.injEq] at h
        refine Or.inr ⟨h.1.symm, rfl, h.2.symm.trans ?_⟩
        rw [← hb]
      · rw [hb, if_pos rfl, Prod.mk.injEq] at h
        exact Or.inl ⟨h.1.symm, rfl, h.2.symm⟩
    · rw [if_neg hr, Prod.mk.injEq] at h
      exact Or.inr (Or.inr ⟨⟨hw, hr⟩, h.1.symm, h.2.symm⟩)

theorem tdd_release_eq (s : State) (minor : Nat) : tdd_release s minor =
    (0, { s with
      write_busy := if minor = TDD_WRITE then false else s.write_busy
      read_busy := if minor = TDD_READ then false else s.read_busy }) := by
  unfold tdd_release
  by_cases hw : minor = TDD_WRITE
  · rw [if_pos hw, if_pos hw, if_neg (by rw [hw]; decide)]
  · rw [if_neg hw, if_neg hw]
    by_cases hr : minor = TDD_READ
    · rw [if_pos hr, if_pos hr]
    · rw [if_neg hr, if_neg hr]

end Calls

section Run

variable {es : List Event} {e : Event} {s t : System}

/-- What holds in every run: the writer's flag is its handle, the reader's flag is never set, and no
other minor is ever opened. -/
structure Inv (s : System) : Prop where
  writer : opens s.handles TDD_WRITE = if s.drv.write_busy then 1 else 0
  reader : s.drv.read_busy = false
  other : ∀ minor, minor ≠ TDD_WRITE → minor ≠ TDD_READ → opens s.handles minor = 0

theorem inv_start (s : State) : Inv (start s) := ⟨rfl, rfl, fun _ _ _ ↦ rfl⟩

theorem inv_opened (h : Inv s) {drv : State} (client minor : Nat)
    (ho : tdd_open s.drv minor = (0, drv)) : Inv ⟨drv, ⟨client, minor⟩ :: s.handles⟩ := by
  rcases tdd_open_cases ho with ⟨rfl, h'⟩ | ⟨rfl, h'⟩ | ⟨_, h0, _⟩
  · rcases h' with ⟨h0, _⟩ | ⟨_, hfree, rfl⟩
    · cases h0
    · have hw := h.writer
      rw [hfree, if_neg Bool.false_ne_true] at hw
      refine ⟨?_, h.reader, fun m hmw hmr ↦ ?_⟩
      · rw [opens_cons, hw]
        rfl
      · rw [opens_cons, h.other m hmw hmr, if_neg (Ne.symm hmw)]
  · rcases h' with ⟨h0, _⟩ | ⟨_, _, rfl⟩
    · cases h0
    · refine ⟨?_, h.reader, fun m hmw hmr ↦ ?_⟩
      · rw [opens_cons, h.writer, if_neg (show TDD_READ ≠ TDD_WRITE by decide), Nat.add_zero]
      · rw [opens_cons, h.other m hmw hmr, if_neg (Ne.symm hmr)]
  · cases h0

theorem inv_released (h : Inv s) {drv : State} {ret : Int} {hd : Handle} (hmem : hd ∈ s.handles)
    (hr : tdd_release s.drv hd.minor = (ret, drv)) : Inv ⟨drv, s.handles.erase hd⟩ := by
  rw [tdd_release_eq, Prod.mk.injEq] at hr
  rcases hr with ⟨_, rfl⟩
  refine ⟨?_, ?_, fun m hmw hmr ↦ ?_⟩
  · have hw := h.writer
    rw [opens_erase hmem] at hw
    show opens (s.handles.erase hd) TDD_WRITE =
      if (if hd.minor = TDD_WRITE then false else s.drv.write_busy) then 1 else 0
    by_cases hmin : hd.minor = TDD_WRITE
    · rw [if_pos hmin] at hw ⊢
      rw [if_neg Bool.false_ne_true]
      split at hw <;> omega
    · rwa [if_neg hmin] at hw ⊢
  · show (if hd.minor = TDD_READ then false else s.drv.read_busy) = false
    rw [h.reader, ite_self]
  · have hother := h.other m hmw hmr
    rw [opens_erase hmem] at hother
    exact (Nat.add_eq_zero_iff.mp hother).1

theorem inv_step (h : Inv s) (hs : Step s e t) : Inv t := by
  cases hs with
  | opened client minor ho => exact inv_opened h client minor ho
  | released hd hmem hr => exact inv_released h hmem hr
  | refused client minor ho hne =>
    rcases tdd_open_cases ho with ⟨_, ⟨_, _, rfl⟩ | ⟨h0, _⟩⟩ | ⟨_, ⟨_, _, rfl⟩ | ⟨h0, _⟩⟩ | ⟨_, _, rfl⟩
    · exact h
    · exact absurd h0 hne
    · exact h
    · exact absurd h0 hne
    · exact h

theorem Inv.writer_le (h : Inv s) : opens s.handles TDD_WRITE ≤ 1 := by
  rw [h.writer]
  split <;> omega

-- An open is refused as busy by the handle on its minor, save that the reader's side never refuses.
theorem busy_iff (h : Inv s) {drv : State} {minor : Nat} {ret : Int}
    (ho : tdd_open s.drv minor = (ret, drv)) :
    (ret = -EBUSY ↔ 0 < opens s.handles minor) ↔
      (minor = TDD_READ → opens s.handles TDD_READ = 0) := by
  have hne : (0 : Int) ≠ -EBUSY := by decide
  rcases tdd_open_cases ho with ⟨rfl, h'⟩ | ⟨rfl, h'⟩ | ⟨⟨hmw, hmr⟩, rfl, _⟩
  · rw [h.writer]
    rcases h' with ⟨rfl, hb, _⟩ | ⟨rfl, hb, _⟩
    · simp [hb, TDD_READ, TDD_WRITE]
    · simp [hb, hne, TDD_READ, TDD_WRITE]
  · rcases h' with ⟨_, hb, _⟩ | ⟨rfl, _, _⟩
    · rw [h.reader] at hb
      cases hb
    · simp [hne]
  · rw [h.other minor hmw hmr]
    simp [hmr, ENXIO, EBUSY]

theorem reader_le (h : opens s.handles TDD_READ ≤ 1) (hs : Step s e t)
    (hg : ReaderAlone es s e) : opens t.handles TDD_READ ≤ 1 := by
  cases hs with
  | opened client minor ho =>
    rw [opens_cons]
    by_cases hmin : minor = TDD_READ
    · subst hmin
      have h0 := hg client 0 rfl
      rw [if_pos rfl]
      omega
    · rwa [if_neg hmin]
  | refused => exact h
  | released hd hmem hr =>
    rw [opens_erase hmem] at h
    show opens (s.handles.erase hd) TDD_READ ≤ 1
    omega

theorem exclusive_step (h : Inv s) (hr : opens s.handles TDD_READ ≤ 1) (hs : Step s e t)
    (hg : ReaderAlone es s e) : Exclusive s e t where
  one_writer := (inv_step h hs).writer_le
  one_reader := reader_le hr hs hg
  busy := by
    rintro client minor ret rfl
    have hbusy : minor = TDD_READ → opens s.handles TDD_READ = 0 := by
      rintro rfl
      exact hg client ret rfl
    cases hs with
    | opened _ _ ho => exact (busy_iff h ho).mpr hbusy
    | refused _ _ ho => exact (busy_iff h ho).mpr hbusy

theorem readerAlone_of_exclusive (h : Inv s) (hs : Step s e t) (hx : Exclusive s e t) :
    ReaderAlone es s e := by
  rintro client ret rfl
  have hbusy := hx.busy client TDD_READ ret rfl
  cases hs with
  | opened _ _ ho => exact (busy_iff h ho).mp hbusy rfl
  | refused _ _ ho => exact (busy_iff h ho).mp hbusy rfl

/-- The writer's side is exclusive in every run. -/
theorem one_writer {s₀ : State} (h : Run Step (start s₀) es s) :
    opens s.handles TDD_WRITE ≤ 1 ∧ (s.drv.write_busy = true ↔ opens s.handles TDD_WRITE = 1) := by
  have hinv := h.state_invariant Inv (inv_start s₀) fun _ _ _ hi hs ↦ inv_step hi hs
  refine ⟨hinv.writer_le, ?_⟩
  rw [hinv.writer]
  cases s.drv.write_busy <;> decide

/-- Every call keeps the two sides exclusive exactly in the runs in which no second reader comes. -/
theorem exclusive_iff {s₀ : State} : GuardedRun Step ReaderAlone (start s₀) es s ↔
    RunWhere Step (fun _ ↦ Exclusive) (start s₀) es s := by
  apply RunWhere.iff_of_invariant fun _ s ↦ Inv s ∧ opens s.handles TDD_READ ≤ 1
  · exact ⟨inv_start s₀, Nat.zero_le 1⟩
  · exact fun es s e t hi hs hg ↦ ⟨inv_step hi.1 hs, reader_le hi.2 hs hg⟩
  · exact fun es s e t hi hs ↦
      ⟨exclusive_step hi.1 hi.2 hs, readerAlone_of_exclusive hi.1 hs⟩

end Run

/-- Two clients open the reader's side one after the other, and both are let in. -/
theorem second_reader_admitted :
    ∃ es s drv, Run Step (start ⟨fun _ ↦ none, none, none, false, false⟩) es s ∧
      opens s.handles TDD_READ = 1 ∧
      Step s (.open_ 1 TDD_READ 0) ⟨drv, ⟨1, TDD_READ⟩ :: s.handles⟩ ∧
      opens (⟨1, TDD_READ⟩ :: s.handles) TDD_READ = 2 := by
  let s₀ := start ⟨fun _ ↦ none, none, none, false, false⟩
  have h₁ : Run Step s₀ _ _ := .snoc .nil (.opened 0 TDD_READ rfl)
  exact ⟨_, _, _, h₁, rfl, .opened 1 TDD_READ rfl, rfl⟩

end Open

end OK210Drivers.Tdd
