import OK210Drivers.Server.SelectBookkeeping

/-!
# The bound `fdmax` of the select() server

`get_max_fd` starts from the old maximum, so that a connection that closes never lowers it: `fdmax` is the
highest descriptor that has ever been accepted, if that is above `sd`.  With `AcceptNew` descriptors may
be of any size: the `fd_set` is taken without its bound `FD_SETSIZE`.
-/

open Library

namespace OK210Drivers.Server.Select

/-- `fdmax` is the maximum of `sd` and the descriptors of the open slots. -/
def FdmaxExact (s : State) : Prop := IsGreatest {fd | fd = s.sd ∨ fd ∈ s.clients} s.fdmax

/-- A descriptor that has been accepted, and none above it. -/
def HighestAccepted (es : List Event) (fd : Int) : Prop :=
  IsGreatest {fd | ∃ ci, .accept ci fd ∈ es} fd

/-- The highest descriptor accepted so far is not above `sd`, or one of the open slots holds it. -/
def HighestHeld (es : List Event) (s : State) : Prop :=
  ∀ fd, HighestAccepted es fd → fd ≤ s.sd ∨ fd ∈ s.clients

/-- `fdmax` is above everything that has been accepted, and is not above `sd` unless it has been
accepted. -/
structure PeakKept (es : List Event) (s : State) : Prop where
  le : ∀ ci fd, .accept ci fd ∈ es → fd ≤ s.fdmax
  reached : s.fdmax ≤ s.sd ∨ ∃ ci, .accept ci s.fdmax ∈ es

variable {acc : Finset Int → Int → Prop} {s t : State} {e : Event} {es : List Event}

/-- A connection that closes leaves `fdmax` alone, the one that holds it, too. -/
theorem terminate_client_fdmax (h : Inv s) (ci : Nat) : (terminate_client s ci).fdmax = s.fdmax := by
  have hle : get_max_fd s.fdmax (Function.update s.isopen ci false) s.cd s.ncons ≤ s.fdmax := by
    refine get_max_fd_le (le_refl _) fun j hj hopen ↦ ?_
    obtain ⟨_, hj, hopen⟩ := (used_drop j).mp ⟨hj, hopen⟩
    exact h.le_fdmax _ (val_mem_held hj hopen)
  unfold terminate_client
  dsimp only
  split
  · exact le_antisymm hle (le_get_max_fd ..)
  · rfl

theorem serve_fdmax (h : Inv s) (ci : Nat) (count : Int) : (serve s ci count).fdmax = s.fdmax := by
  unfold serve
  split
  · exact terminate_client_fdmax h ci
  · rfl

theorem PeakKept.reached_snoc (h : PeakKept es s) (e : Event) :
    s.fdmax ≤ s.sd ∨ ∃ ci, .accept ci s.fdmax ∈ es ++ [e] :=
  h.reached.imp_right fun ⟨ci, hm⟩ ↦ ⟨ci, List.mem_append_left _ hm⟩

-- A step that is no accept and leaves `fdmax` alone.
theorem PeakKept.of_same (h : PeakKept es s) (hnot : ∀ ci fd, e ≠ .accept ci fd)
    (hmax : t.fdmax = s.fdmax) (hsd : t.sd = s.sd) : PeakKept (es ++ [e]) t where
  le ci fd hm := by
    rw [hmax]
    rcases List.mem_append.mp hm with hm | hm
    · exact h.le ci fd hm
    · exact absurd (List.mem_singleton.mp hm).symm (hnot ci fd)
  reached := by
    rw [hmax, hsd]
    exact h.reached_snoc e

theorem peakKept_enter (h : PeakKept es s) : PeakKept (es ++ [.enter]) (enter s) := by
  rw [enter_eq]
  refine ⟨fun ci fd hm ↦ ?_, ?_⟩
  · rcases List.mem_append.mp hm with hm | hm
    · exact (h.le ci fd hm).trans (le_max_right ..)
    · cases List.mem_singleton.mp hm
  · show max s.sd s.fdmax ≤ s.sd ∨ ∃ ci, Event.accept ci (max s.sd s.fdmax) ∈ es ++ [.enter]
    rcases le_total s.fdmax s.sd with hle | hle
    · rw [max_eq_left hle]
      exact Or.inl (le_refl _)
    · rw [max_eq_right hle]
      exact h.reached_snoc .enter

theorem peakKept_accept (h : PeakKept es s) {ci : Nat} {fd : Int}
    (ha : accept_connection s fd = some (ci, t)) : PeakKept (es ++ [.accept ci fd]) t := by
  obtain ⟨_, rfl⟩ := accept_connection_eq ha
  refine ⟨fun cj fj hm ↦ ?_, ?_⟩
  · rcases List.mem_append.mp hm with hm | hm
    · exact (h.le cj fj hm).trans (le_max_right ..)
    · cases List.mem_singleton.mp hm
      exact le_max_left ..
  · show max fd s.fdmax ≤ s.sd ∨ ∃ cj, Event.accept cj (max fd s.fdmax) ∈ es ++ [.accept ci fd]
    rcases le_total s.fdmax fd with hle | hle
    · rw [max_eq_left hle]
      exact Or.inr ⟨ci, List.mem_append_right _ (List.mem_singleton_self _)⟩
    · rw [max_eq_right hle]
      exact h.reached_snoc (.accept ci fd)

theorem peakKept_step (hi : Inv s) (h : PeakKept es s) (hs : Step acc s e t) :
    PeakKept (es ++ [e]) t := by
  have hsd := (step_fixed hs).2
  cases hs with
  | enter _ => exact peakKept_enter h
  | select _ _ => exact h.of_same (fun _ _ he ↦ by cases he) rfl hsd
  | accept _ _ _ _ ha => exact peakKept_accept h ha
  | noAccept _ _ => exact h.of_same (fun _ _ he ↦ by cases he) rfl hsd
  | handle _ _ _ => exact h.of_same (fun _ _ he ↦ by cases he) (serve_fdmax hi ..) hsd
  | pass _ _ _ => exact h.of_same (fun _ _ he ↦ by cases he) rfl hsd
  | wrap _ _ => exact h.of_same (fun _ _ he ↦ by cases he) rfl hsd

theorem fdmaxExact_iff (hi : Inv s) (hsd : s.sd ≤ s.fdmax) (h : PeakKept es s) :
    FdmaxExact s ↔ HighestHeld es s := by
  constructor
  · rintro ⟨hmem, _⟩ fd ⟨⟨ci, hfd⟩, hhighest⟩
    have hle := h.le ci fd hfd
    rcases h.reached with hmax | ⟨cj, hmax⟩
    · exact Or.inl (hle.trans hmax)
    · have heq : s.fdmax = fd := le_antisymm (hhighest ⟨cj, hmax⟩) hle
      rw [← heq]
      exact hmem.imp_left fun he ↦ he.le
  · intro hheld
    refine ⟨?_, fun fd hfd ↦ ?_⟩
    · rcases h.reached with hmax | ⟨cj, hmax⟩
      · exact Or.inl (le_antisymm hmax hsd)
      · rcases hheld s.fdmax ⟨⟨cj, hmax⟩, fun fd ⟨ci, hfd⟩ ↦ h.le ci fd hfd⟩ with hle | hmem
        · exact Or.inl (le_antisymm hle hsd)
        · exact Or.inr hmem
    · rcases hfd with rfl | hfd
      · exact hsd
      · exact hi.le_fdmax fd hfd

section Runs

variable {ncons : Nat} {sd : Int} {isopen : Nat → Bool} {cd : Nat → Int} {fds : Finset Int} {s₀ : State}

theorem acceptNew_fresh (fds : Finset Int) (fd : Int) (h : AcceptNew fds fd) : fd ∉ fds := h.2

theorem run_peakKept (h0 : main_init ncons sd isopen cd fds = some s₀) (hsd : 0 ≤ sd)
    (h : Run (Step AcceptNew) s₀ es s) : PeakKept es s := by
  refine h.invariant PeakKept ?_ fun es s e t hr hp hs ↦
    peakKept_step (run_inv acceptNew_fresh h0 hr) hp hs
  unfold main_init at h0
  split at h0
  next => cases h0
  next =>
    cases h0
    exact ⟨fun _ _ hm ↦ absurd hm List.not_mem_nil, Or.inl hsd⟩

/-- At every call of `select` the bound is the maximum of `sd` and the open descriptors exactly if the
highest descriptor accepted so far is not above `sd` or still open. -/
theorem fdmax_exact_iff (h0 : main_init ncons sd isopen cd fds = some s₀) (hsd : 0 ≤ sd)
    (h : Run (Step AcceptNew) s₀ es s) (hpc : s.pc = .calling) : FdmaxExact s ↔ HighestHeld es s := by
  have hplace := run_atPlace acceptNew_fresh h0 h
  simp only [AtPlace, hpc] at hplace
  exact fdmaxExact_iff (run_inv acceptNew_fresh h0 h) hplace.1 (run_peakKept h0 hsd h)

-- Descriptors 4 and 5 are accepted and 4 is closed: the bound is 5.
theorem fdmax_exact_second_client :
    ∃ s₀ es s, main_init 2 3 (fun _ ↦ true) (fun _ ↦ 4) {0, 1, 2} = some s₀ ∧
      Run (Step AcceptNew) s₀ es s ∧ s.pc = .calling ∧ s.clients = {5} ∧ s.fdmax = 5 ∧ FdmaxExact s := by
  let s₀ : State := (main_init 2 3 (fun _ ↦ true) (fun _ ↦ 4) {0, 1, 2}).get rfl
  let s₁ : State := { enter s₀ with testset := {3}, pc := .listening }
  let s₂ : State := ((accept_connection s₁ 4).get rfl).2
  let s₃ : State := {
    sd := 3
    ncons := 2
    fdset := {4, 3}
    testset := {4, 3}
    fdmax := 4
    nopen := 1
    isopen := Function.update s₀.isopen 0 true
    cd := Function.update s₀.cd 0 4
    fds := {4, 3, 0, 1, 2}
    pc := .calling }
  let s₄ : State := { s₃ with pc := .listening }
  let s₅ : State := ((accept_connection s₄ 5).get rfl).2
  let s₆ : State := enter { serve s₅ 0 0 with pc := .top }
  have h0 : main_init 2 3 (fun _ ↦ true) (fun _ ↦ 4) {0, 1, 2} = some s₀ := rfl
  have hfirst : Run (Step AcceptNew) s₀ [.enter, .select {3}, .accept 0 4] s₂ :=
    .snoc (.snoc (.snoc .nil (.enter rfl)) (.select rfl (by decide)))
      (.accept rfl (by decide) (by decide) ⟨by decide, by decide⟩ rfl)
  have hcalling : Run (Step AcceptNew) s₂ [.pass, .pass, .wrap, .enter] s₃ :=
    .snoc (.snoc (.snoc (.snoc .nil (.pass rfl (by decide) (by decide))) (.pass rfl (by decide) (by decide)))
      (.wrap rfl (by decide))) (.enter rfl)
  have hselect : Step AcceptNew s₃ (.select {4, 3}) s₄ := .select rfl (by decide)
  have haccept : Step AcceptNew s₄ (.accept 1 5) s₅ :=
    .accept rfl (by decide) (by decide) ⟨by decide, by decide⟩ rfl
  have hclosed : Run (Step AcceptNew) s₅ [.handle 0 4 0, .pass, .wrap, .enter] s₆ :=
    .snoc (.snoc (.snoc (.snoc .nil (.handle rfl (by decide) (by decide))) (.pass rfl (by decide) (by decide)))
      (.wrap rfl (by decide))) (.enter rfl)
  have hrun := (((hfirst.append hcalling).snoc hselect).snoc haccept).append hclosed
  have hclients : s₆.clients = {5} := by decide
  refine ⟨s₀, _, s₆, h0, hrun, rfl, hclients, by decide, (fdmax_exact_iff h0 (by decide) hrun rfl).mpr ?_⟩
  rintro fd ⟨⟨ci, hfd⟩, hgreatest⟩
  have hle : (5 : Int) ≤ fd := hgreatest ⟨1, by decide⟩
  right
  rw [hclients, Finset.mem_singleton]
  have hcases : ci = 0 ∧ fd = 4 ∨ ci = 1 ∧ fd = 5 := by simpa using hfd
  omega

/-- Descriptor 4 is accepted and closed, and at the next call of `select` the bound is still 4. -/
theorem fdmax_not_lowered :
    ∃ s₀ es s, main_init 1 3 (fun _ ↦ true) (fun _ ↦ 4) {0, 1, 2} = some s₀ ∧
      Run (Step AcceptNew) s₀ es s ∧ s.pc = .calling ∧ s.clients = ∅ ∧ s.fdmax = 4 ∧
      ¬FdmaxExact s := by
  let s₀ : State := (main_init 1 3 (fun _ ↦ true) (fun _ ↦ 4) {0, 1, 2}).get rfl
  let s₁ : State := { enter s₀ with testset := {3}, pc := .listening }
  let s₂ : State := ((accept_connection s₁ 4).get rfl).2
  let s₃ : State := enter { s₂ with pc := .top }
  let s₄ : State := { s₃ with testset := {4}, pc := .serving 0 }
  let s₅ : State := enter { serve s₄ 0 0 with pc := .top }
  have haccepted : Run (Step AcceptNew) s₀ [.enter, .select {3}, .accept 0 4] s₂ :=
    .snoc (.snoc (.snoc .nil (.enter rfl)) (.select rfl (by decide)))
      (.accept rfl (by decide) (by decide) ⟨by decide, by decide⟩ rfl)
  have hcalling : Run (Step AcceptNew) s₂ [.pass, .wrap, .enter] s₃ :=
    .snoc (.snoc (.snoc .nil (.pass rfl (by decide) (by decide))) (.wrap rfl (by decide))) (.enter rfl)
  have hready : Run (Step AcceptNew) s₃ [.select {4}, .noAccept] s₄ :=
    .snoc (.snoc .nil (.select rfl (by decide))) (.noAccept rfl (by decide))
  have hclosed : Run (Step AcceptNew) s₄ [.handle 0 4 0, .wrap, .enter] s₅ :=
    .snoc (.snoc (.snoc .nil (.handle rfl (by decide) (by decide))) (.wrap rfl (by decide))) (.enter rfl)
  have hempty : s₅.clients = ∅ := by decide
  have hmax : s₅.fdmax = 4 := by decide
  have hsd : s₅.sd = 3 := by decide
  refine ⟨s₀, _, s₅, rfl, ((haccepted.append hcalling).append hready).append hclosed, rfl, hempty, hmax,
    fun hexact ↦ ?_⟩
  rcases hexact.1 with heq | hmem
  · rw [hmax, hsd] at heq
    exact absurd heq (by decide)
  · rw [hempty] at hmem
    exact absurd hmem (Finset.notMem_empty _)

end Runs

end OK210Drivers.Server.Select
