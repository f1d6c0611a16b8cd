import OK210Drivers.Library.Runs
import OK210Drivers.Server.Pthread

/-!
# Who holds a connection of the pthread server

A connection is held by the main thread until its worker is created, and then by the worker until it
closes it.  As long as every slot has at most one holder no step changes what another holder has.
-/

open Library

namespace OK210Drivers.Server.Pthread

/-- The last descriptor that was accepted, and the connections that the workers were created for. -/
structure Connections where
  last : Int
  own : Nat → Option Int

def Connections.step (c : Connections) : Event → Connections
  | .accept _ fd => { c with last := fd }
  | .create w _ => { c with own := Function.update c.own w (some c.last) }
  | _ => c

def connections (es : List Event) : Connections :=
  es.foldl Connections.step { last := -1, own := fun _ ↦ none }

def Accepts (fd : Int) (e : Event) : Prop := ∃ ci, e = .accept ci fd

def Closes (fd : Int) (e : Event) : Prop := ∃ w ci, e = .close w ci fd

/-- `fd` has been accepted and not closed since. -/
def Live (es : List Event) (fd : Int) : Prop := Since (Accepts fd) (fun e ↦ ¬Closes fd e) es

/-! ## The holders -/

/-- The slot for which the main thread has accepted a connection and not created the worker. -/
def mainSlot : Pc → Option Nat
  | .opening ci => some ci
  | .counting ci => some ci
  | .storing ci => some ci
  | .creating ci => some ci
  | _ => none

/-- The slot of the connection that the main thread (`none`) or a worker holds. -/
def holds (s : State) : Option Nat → Option Nat
  | none => mainSlot s.pc
  | some w => if w ∈ s.threads then some (s.worker w).slot else none

structure Held (es : List Event) (s : State) : Prop where
  inj : ∀ x y ci cj, holds s x = some ci → holds s y = some cj → s.cd ci = s.cd cj → x = y
  live : ∀ x ci, holds s x = some ci → s.cd ci ∈ s.fds ∧ Live es (s.cd ci)
  own : ∀ w ci, holds s (some w) = some ci → (connections es).own w = some (s.cd ci)
  last : ∀ ci, holds s none = some ci → (connections es).last = s.cd ci

/-- What the history says about the workers. -/
structure Numbered (es : List Event) (s : State) : Prop where
  created_lt : ∀ w ∈ s.threads, w < s.created
  create_lt : ∀ w ci, .create w ci ∈ es → w < s.created
  close_lt : ∀ w ci fd, .close w ci fd ∈ es → w < s.created
  slot_eq : ∀ w ∈ s.threads, ∀ ci, .create w ci ∈ es ↔ ci = (s.worker w).slot
  unclosed : ∀ w ∈ s.threads, ∀ ci fd, .close w ci fd ∉ es
  ended : ∀ w ci, .create w ci ∈ es → w ∉ s.threads → ∃ cj fd, .close w cj fd ∈ es

section Facts

variable {es : List Event} {s t : State} {e : Event} {w ci cj : Nat} {fd : Int}

theorem connections_snoc (es : List Event) (e : Event) :
    connections (es ++ [e]) = (connections es).step e := by
  rw [connections, List.foldl_append]
  rfl

theorem live_snoc : Live (es ++ [e]) fd ↔ Accepts fd e ∨ Live es fd ∧ ¬Closes fd e := since_snoc

theorem holds_worker (hw : w ∈ s.threads) : holds s (some w) = some (s.worker w).slot := if_pos hw

theorem holds_worker_iff : holds s (some w) = some ci ↔ w ∈ s.threads ∧ (s.worker w).slot = ci := by
  by_cases hw : w ∈ s.threads
  · rw [holds_worker hw, Option.some.injEq, and_iff_right hw]
  · rw [holds, if_neg hw]
    exact iff_of_false nofun fun h ↦ hw h.1

/-- A step that neither creates nor ends a worker. -/
theorem Numbered.other (h : Numbered es s) (hcreate : ∀ w ci, e ≠ .create w ci)
    (hclose : ∀ w ci fd, e ≠ .close w ci fd) (hthreads : t.threads = s.threads)
    (hslot : ∀ w ∈ s.threads, (t.worker w).slot = (s.worker w).slot)
    (hcreated : t.created = s.created) : Numbered (es ++ [e]) t := by
  have hcreates : ∀ w ci, Event.create w ci ∈ es ++ [e] ↔ Event.create w ci ∈ es := by
    intro w ci
    rw [List.mem_append, List.mem_singleton]
    exact or_iff_left (hcreate w ci).symm
  have hcloses : ∀ w ci fd, Event.close w ci fd ∈ es ++ [e] ↔ Event.close w ci fd ∈ es := by
    intro w ci fd
    rw [List.mem_append, List.mem_singleton]
    exact or_iff_left (hclose w ci fd).symm
  constructor
  case created_lt =>
    rw [hthreads, hcreated]
    exact h.created_lt
  case create_lt =>
    simp only [hcreates, hcreated]
    exact h.create_lt
  case close_lt =>
    simp only [hcloses, hcreated]
    exact h.close_lt
  case slot_eq =>
    intro w hw ci
    rw [hthreads] at hw
    rw [hcreates, hslot w hw]
    exact h.slot_eq w hw ci
  case unclosed =>
    simp only [hcloses, hthreads]
    exact h.unclosed
  case ended =>
    simp only [hcreates, hcloses, hthreads]
    exact h.ended

theorem holds_eq (hpc : mainSlot t.pc = mainSlot s.pc) (hthreads : t.threads = s.threads)
    (hslot : ∀ w ∈ s.threads, (t.worker w).slot = (s.worker w).slot) : holds t = holds s := by
  funext x
  cases x with
  | none => exact hpc
  | some w =>
    unfold holds
    rw [hthreads]
    by_cases hw : w ∈ s.threads
    · simp only [if_pos hw, hslot w hw]
    · simp only [if_neg hw]

/-- A step that others do not see keeps what the holders have. -/
theorem Held.tau (h : Held es s) (hpc : mainSlot t.pc = mainSlot s.pc) (hthreads : t.threads = s.threads)
    (hslot : ∀ w ∈ s.threads, (t.worker w).slot = (s.worker w).slot) (hcd : t.cd = s.cd)
    (hfds : t.fds = s.fds) : Held (es ++ [.tau]) t := by
  have hholds := holds_eq hpc hthreads hslot
  have hlive : ∀ fd, Live es fd → Live (es ++ [.tau]) fd := by
    intro fd hl
    exact live_snoc.mpr (Or.inr ⟨hl, nofun⟩)
  have hconn : connections (es ++ [.tau]) = connections es := connections_snoc ..
  constructor
  case inj =>
    rw [hholds, hcd]
    exact h.inj
  case live =>
    intro x ci hx
    rw [hholds] at hx
    rw [hcd, hfds]
    exact (h.live x ci hx).imp_right (hlive _)
  case own =>
    rw [hholds, hcd, hconn]
    exact h.own
  case last =>
    rw [hholds, hcd, hconn]
    exact h.last

/-- A new connection has one holder, and none of the old ones has its slot or its descriptor. -/
theorem Held.accept (h : Held es s) (hno : ∀ x, holds s x ≠ some ci) (hfd : fd ∉ s.fds) :
    Held (es ++ [.accept ci fd]) { s with
      fds := insert fd s.fds
      cd := Function.update s.cd ci fd
      pc := .opening ci } := by
  generalize ht : State.mk .. = t
  have hnew : holds t none = some ci := by rw [← ht]; rfl
  have hcdnew : t.cd ci = fd := by rw [← ht]; exact Function.update_self ..
  have hold : ∀ x cj, holds t x = some cj →
      (x = none ∧ cj = ci) ∨ (holds s x = some cj ∧ x ≠ none ∧ t.cd cj = s.cd cj) := by
    intro x cj hx
    cases x with
    | none =>
      rw [hnew, Option.some.injEq] at hx
      exact Or.inl ⟨rfl, hx.symm⟩
    | some w =>
      have hx' : holds s (some w) = some cj := by rwa [← ht] at hx
      have hne : cj ≠ ci := by
        rintro rfl
        exact hno _ hx'
      exact Or.inr ⟨hx', nofun, by rw [← ht]; exact Function.update_of_ne hne ..⟩
  have hfds : ∀ d, d ∈ t.fds ↔ d = fd ∨ d ∈ s.fds := by
    intro d
    rw [← ht]
    exact Finset.mem_insert
  have hlive : ∀ d, d = fd ∨ Live es d → Live (es ++ [.accept ci fd]) d := by
    rintro d (rfl | hl)
    · exact live_snoc.mpr (Or.inl ⟨ci, rfl⟩)
    · exact live_snoc.mpr (Or.inr ⟨hl, nofun⟩)
  constructor
  case inj =>
    intro x y cj ck hx hy he
    rcases hold x cj hx with ⟨rfl, rfl⟩ | ⟨hx, _, hcx⟩ <;>
      rcases hold y ck hy with ⟨rfl, rfl⟩ | ⟨hy, _, hcy⟩
    · rfl
    · rw [hcdnew, hcy] at he
      exact absurd (he ▸ (h.live y ck hy).1) hfd
    · rw [hcdnew, hcx] at he
      exact absurd (he ▸ (h.live x cj hx).1) hfd
    · rw [hcx, hcy] at he
      exact h.inj x y cj ck hx hy he
  case live =>
    intro x cj hx
    rw [hfds]
    rcases hold x cj hx with ⟨rfl, rfl⟩ | ⟨hx, _, hcx⟩
    · exact ⟨Or.inl hcdnew, hlive _ (Or.inl hcdnew)⟩
    · rw [hcx]
      exact ⟨Or.inr (h.live x cj hx).1, hlive _ (Or.inr (h.live x cj hx).2)⟩
  case own =>
    intro w cj hx
    rcases hold _ cj hx with ⟨he, _⟩ | ⟨hx, _, hcx⟩
    · cases he
    · rw [hcx, connections_snoc]
      exact h.own w cj hx
  case last =>
    intro cj hx
    rw [hnew, Option.some.injEq] at hx
    rw [← hx, hcdnew, connections_snoc]
    rfl

/-- The main thread's connection becomes the new worker's. -/
theorem Held.create (h : Held es s) (hn : Numbered es s) (hpc : s.pc = .creating ci) :
    Held (es ++ [.create s.created ci]) { s with
      threads := insert s.created s.threads
      worker := Function.update s.worker s.created (.start ci)
      created := s.created + 1
      pc := .top } := by
  generalize ht : State.mk .. = t
  have hmain : holds s none = some ci := by
    simp only [holds, hpc]
    rfl
  have hcd : t.cd = s.cd := by rw [← ht]
  have hold : ∀ x cj, holds t x = some cj → (x = some s.created ∧ cj = ci) ∨
      (holds s x = some cj ∧ x ≠ none ∧ x ≠ some s.created) := by
    intro x cj hx
    rw [← ht] at hx
    cases x with
    | none => cases hx
    | some w =>
      rcases holds_worker_iff.mp hx with ⟨hw, hslot⟩
      rcases Finset.mem_insert.mp hw with rfl | hw
      · simp only [Function.update_self] at hslot
        exact Or.inl ⟨rfl, hslot.symm⟩
      · have hne : w ≠ s.created := (hn.created_lt w hw).ne
        simp only [Function.update_of_ne hne] at hslot
        refine Or.inr ⟨holds_worker_iff.mpr ⟨hw, hslot⟩, nofun, fun he ↦ hne ?_⟩
        cases he
        rfl
  have hlive : ∀ d, Live es d → Live (es ++ [.create s.created ci]) d := by
    intro d hl
    exact live_snoc.mpr (Or.inr ⟨hl, nofun⟩)
  constructor
  case inj =>
    intro x y cj ck hx hy he
    rw [hcd] at he
    rcases hold x cj hx with ⟨rfl, rfl⟩ | ⟨hx, hx0, _⟩ <;>
      rcases hold y ck hy with ⟨rfl, rfl⟩ | ⟨hy, hy0, _⟩
    · rfl
    · exact absurd (h.inj none y _ _ hmain hy he).symm hy0
    · exact absurd (h.inj x none _ _ hx hmain he) hx0
    · exact h.inj x y cj ck hx hy he
  case live =>
    intro x cj hx
    have hfds : t.fds = s.fds := by rw [← ht]
    rw [hcd, hfds]
    rcases hold x cj hx with ⟨_, rfl⟩ | ⟨hx, _, _⟩
    · exact (h.live none _ hmain).imp_right (hlive _)
    · exact (h.live x cj hx).imp_right (hlive _)
  case own =>
    intro w cj hx
    rw [hcd, connections_snoc]
    rcases hold _ cj hx with ⟨he, rfl⟩ | ⟨hx, _, hne⟩
    · cases he
      simp only [Connections.step, Function.update_self, h.last _ hmain]
    · have hwne : w ≠ s.created := fun he ↦ hne (he ▸ rfl)
      simp only [Connections.step, Function.update_of_ne hwne]
      exact h.own w cj hx
  case last =>
    intro cj hx
    rw [← ht] at hx
    cases hx

theorem Numbered.create (h : Numbered es s) :
    Numbered (es ++ [.create s.created ci]) { s with
      threads := insert s.created s.threads
      worker := Function.update s.worker s.created (.start ci)
      created := s.created + 1
      pc := .top } := by
  have hcreates : ∀ w cj, Event.create w cj ∈ es ++ [.create s.created ci] →
      (w = s.created ∧ cj = ci) ∨ Event.create w cj ∈ es := by
    intro w cj hm
    rcases List.mem_append.mp hm with hm | hm
    · exact Or.inr hm
    · cases List.mem_singleton.mp hm
      exact Or.inl ⟨rfl, rfl⟩
  have hcloses : ∀ w cj fd, Event.close w cj fd ∈ es ++ [.create s.created ci] →
      Event.close w cj fd ∈ es := by
    intro w cj fd hm
    rcases List.mem_append.mp hm with hm | hm
    · exact hm
    · cases List.mem_singleton.mp hm
  constructor
  case created_lt =>
    intro w hw
    rcases Finset.mem_insert.mp hw with rfl | hw
    · exact Nat.lt_succ_self _
    · exact (h.created_lt w hw).trans (Nat.lt_succ_self _)
  case create_lt =>
    intro w cj hm
    rcases hcreates w cj hm with ⟨rfl, _⟩ | hm
    · exact Nat.lt_succ_self _
    · exact (h.create_lt w cj hm).trans (Nat.lt_succ_self _)
  case close_lt =>
    exact fun w cj fd hm ↦ (h.close_lt w cj fd (hcloses w cj fd hm)).trans (Nat.lt_succ_self _)
  case slot_eq =>
    intro w hw cj
    rcases Finset.mem_insert.mp hw with rfl | hw
    · simp only [Function.update_self]
      constructor
      · intro hm
        rcases hcreates _ cj hm with ⟨_, rfl⟩ | hm
        · rfl
        · exact absurd (h.create_lt _ cj hm) (Nat.lt_irrefl _)
      · rintro rfl
        exact List.mem_append_right _ (List.mem_singleton_self _)
    · have hne : w ≠ s.created := (h.created_lt w hw).ne
      simp only [Function.update_of_ne hne]
      rw [← h.slot_eq w hw cj]
      exact ⟨fun hm ↦ (hcreates w cj hm).resolve_left fun hc ↦ hne hc.1,
        fun hm ↦ List.mem_append_left _ hm⟩
  case unclosed =>
    intro w hw cj fd hm
    have hm := hcloses w cj fd hm
    rcases Finset.mem_insert.mp hw with rfl | hw
    · exact absurd (h.close_lt _ cj fd hm) (Nat.lt_irrefl _)
    · exact h.unclosed w hw cj fd hm
  case ended =>
    intro w cj hm hw
    rw [Finset.mem_insert, not_or] at hw
    rcases hcreates w cj hm with ⟨he, _⟩ | hm
    · exact absurd he hw.1
    · rcases h.ended w cj hm hw.2 with ⟨ck, fd, hc⟩
      exact ⟨ck, fd, List.mem_append_left _ hc⟩

theorem holds_close_section {x : Option Nat} (hx : holds (close_section s w ci) x = some cj) :
    holds s x = some cj ∧ x ≠ some w := by
  cases x with
  | none => exact ⟨hx, nofun⟩
  | some v =>
    rcases holds_worker_iff.mp hx with ⟨hv, hslot⟩
    rcases Finset.mem_erase.mp hv with ⟨hne, hv⟩
    refine ⟨holds_worker_iff.mpr ⟨hv, hslot⟩, fun he ↦ hne ?_⟩
    cases he
    rfl

/-- What the worker closes is nobody else's connection. -/
theorem Held.close (h : Held es s) (hw : holds s (some w) = some ci) :
    Held (es ++ [.close w ci (s.cd ci)]) (close_section s w ci) := by
  constructor
  case inj =>
    intro x y cj ck hx hy he
    exact h.inj x y cj ck (holds_close_section hx).1 (holds_close_section hy).1 he
  case live =>
    intro x cj hx
    rcases holds_close_section hx with ⟨hx, hne⟩
    rcases h.live x cj hx with ⟨hopen, hl⟩
    have hcd : s.cd cj ≠ s.cd ci := fun he ↦ hne (h.inj x (some w) cj ci hx hw he)
    refine ⟨Finset.mem_erase.mpr ⟨hcd, hopen⟩, live_snoc.mpr (Or.inr ⟨hl, ?_⟩)⟩
    rintro ⟨_, _, he⟩
    exact hcd (Event.close.inj he).2.2.symm
  case own =>
    intro v cj hx
    rw [connections_snoc]
    exact h.own v cj (holds_close_section hx).1
  case last =>
    intro cj hx
    rw [connections_snoc]
    exact h.last cj hx

theorem Numbered.close (h : Numbered es s) (hw : w ∈ s.threads) :
    Numbered (es ++ [.close w ci fd]) (close_section s w ci) := by
  have hcreates : ∀ v cj, Event.create v cj ∈ es ++ [.close w ci fd] ↔ Event.create v cj ∈ es := by
    intro v cj
    rw [List.mem_append, List.mem_singleton]
    exact or_iff_left nofun
  have hcloses : ∀ v cj d, Event.close v cj d ∈ es ++ [.close w ci fd] →
      v = w ∨ Event.close v cj d ∈ es := by
    intro v cj d hm
    rcases List.mem_append.mp hm with hm | hm
    · exact Or.inr hm
    · cases List.mem_singleton.mp hm
      exact Or.inl rfl
  constructor
  case created_lt => exact fun v hv ↦ h.created_lt v (Finset.mem_of_mem_erase hv)
  case create_lt => exact fun v cj hm ↦ h.create_lt v cj ((hcreates v cj).mp hm)
  case close_lt =>
    intro v cj d hm
    rcases hcloses v cj d hm with rfl | hm
    · exact h.created_lt v hw
    · exact h.close_lt v cj d hm
  case slot_eq =>
    intro v hv cj
    rw [hcreates]
    exact h.slot_eq v (Finset.mem_of_mem_erase hv) cj
  case unclosed =>
    intro v hv cj d hm
    rcases Finset.mem_erase.mp hv with ⟨hne, hv⟩
    exact h.unclosed v hv cj d ((hcloses v cj d hm).resolve_left hne)
  case ended =>
    intro v cj hm hv
    by_cases hvw : v = w
    · subst hvw
      exact ⟨ci, fd, List.mem_append_right _ (List.mem_singleton_self _)⟩
    · have hnot : v ∉ s.threads := fun hin ↦ hv (Finset.mem_erase.mpr ⟨hvw, hin⟩)
      rcases h.ended v cj ((hcreates v cj).mp hm) hnot with ⟨ck, d, hc⟩
      exact ⟨ck, d, List.mem_append_left _ hc⟩

end Facts

end OK210Drivers.Server.Pthread
