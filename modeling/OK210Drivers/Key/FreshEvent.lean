import Mathlib.Data.List.Nodup
import OK210Drivers.Key.LatestEvent

/-!
# When every read delivers an event of its own

A read that passes the wait copies whatever `key_val` is there.  Two readers that pass the wait on one
event, or a reader that a signal gets out of the wait, copy a value that has been delivered before or
that no interrupt has stored.  In `timer_key` the same read goes with `buttons_timer_function`, which
does for the latest button what `key_interrupt` does here.
-/

open Library

namespace OK210Drivers.Key

/-- The value that an interrupt of a button stores. -/
def storedValue (b : ButtonIrqDesc) (pinval : BitVec 32) : BitVec 8 :=
  (key_interrupt b pinval State.init).key_val

/-- The values that the interrupts have stored, the interrupt and the value that each reader's latest
read has copied, and what each read that has returned 1 has handed over. -/
structure Ledger where
  stored : List (BitVec 8)
  taken : Nat → Option (Nat × BitVec 8)
  returned : List (Option (Nat × BitVec 8))

def Ledger.step (l : Ledger) : Event → Ledger
  | .interrupt b pinval => { l with stored := l.stored ++ [storedValue b pinval] }
  | .copy r v =>
    let d := if l.stored = [] then none else some (l.stored.length - 1, v)
    { l with taken := Function.update l.taken r d }
  | .fault r => { l with taken := Function.update l.taken r none }
  | .clear r => { l with returned := l.taken r :: l.returned }
  | _ => l

def ledger (es : List Event) : Ledger := es.foldl Ledger.step ⟨[], fun _ ↦ none, []⟩

/-- Every read that has returned 1 has handed over what some interrupt has stored, and no two of them
the same interrupt. -/
def Ledger.Fresh (l : Ledger) : Prop :=
  (∀ d ∈ l.returned, ∃ n v, d = some (n, v) ∧ l.stored[n]? = some v) ∧
    (l.returned.map (Option.map Prod.fst)).Nodup

/-- The reads that have returned are fresh, and so they are when any of those that have been to
`copy_to_user` have returned too. -/
def FreshReads (table : List ButtonIrqDesc) (es : List Event) (s : State) : Prop :=
  ∀ rs t, Run (Step table) s rs t → (∀ e ∈ rs, ∃ r, e = .clear r) → (ledger (es ++ rs)).Fresh

/-- `copy_to_user` succeeds, and comes after an interrupt whose value it has not copied before. -/
def CopiesFresh (es : List Event) (_ : State) (e : Event) : Prop :=
  (∀ r v, e = .copy r v → Uncopied es) ∧ ∀ r, e ≠ .fault r

/-- A read that has returned, or has only to return, has handed this over. -/
def Handed (l : Ledger) (s : State) (d : Option (Nat × BitVec 8)) : Prop :=
  d ∈ l.returned ∨ ∃ r, s.readers r = .clearing ∧ l.taken r = d

/-- The latest interrupt and what it has stored. -/
def Ledger.latest (l : Ledger) (s : State) : Option (Nat × BitVec 8) :=
  some (l.stored.length - 1, s.key_val)

/-- What holds while every copy is of a fresh value. -/
structure FreshInv (es : List Event) (s : State) : Prop where
  last : (ledger es).stored ≠ [] →
    (ledger es).stored[(ledger es).stored.length - 1]? = some s.key_val
  real : ∀ d, Handed (ledger es) s d → ∃ n v, d = some (n, v) ∧ (ledger es).stored[n]? = some v
  nodup : (ledger es).returned.Nodup
  apart : ∀ r, s.readers r = .clearing → (ledger es).taken r ∉ (ledger es).returned ∧
    ∀ q, s.readers q = .clearing → (ledger es).taken q = (ledger es).taken r → q = r
  uncopied : Uncopied es ↔
    (ledger es).stored ≠ [] ∧ ¬Handed (ledger es) s ((ledger es).latest s)

section Ledger

variable {table : List ButtonIrqDesc} {es : List Event} {e : Event} {s t : State}

@[simp] theorem ledger_snoc : ledger (es ++ [e]) = (ledger es).step e := by
  unfold ledger
  rw [List.foldl_append]
  rfl

theorem Ledger.step_copy {l : Ledger} (hne : l.stored ≠ []) (r : Nat) (s : State) :
    l.step (.copy r s.key_val) = { l with taken := Function.update l.taken r (l.latest s) } := by
  show Ledger.mk _ (Function.update _ _ (if l.stored = [] then none else _)) _ = _
  rw [if_neg hne]
  rfl

-- The readers between the copy and the end of a read, when another place is taken or left.
theorem clearing_goto {pc : Pc} {r q : Nat} (hr : s.readers r ≠ .clearing) (hpc : pc ≠ .clearing) :
    (s.goto r pc).readers q = .clearing ↔ s.readers q = .clearing := by
  by_cases hq : q = r
  · subst hq
    rw [State.goto_same]
    exact iff_of_false hpc hr
  · rw [State.goto_of_ne s pc hq]

theorem freshInv_init : FreshInv [] State.init where
  last := fun h ↦ absurd rfl h
  real := by
    rintro d (h | ⟨r, hr, _⟩)
    · cases h
    · cases hr
  nodup := List.nodup_nil
  apart := by
    intro r hr
    cases hr
  uncopied := iff_of_false not_since_nil fun h ↦ h.1 rfl

-- A step that neither copies nor returns.
theorem FreshInv.other (h : FreshInv es s) (hl : (ledger es).step e = ledger es)
    (hclear : ∀ q, t.readers q = .clearing ↔ s.readers q = .clearing) (hkey : t.key_val = s.key_val)
    (hun : Uncopied (es ++ [e]) ↔ Uncopied es) : FreshInv (es ++ [e]) t := by
  have hhanded : ∀ l d, Handed l t d ↔ Handed l s d := by
    intro l d
    unfold Handed
    simp only [hclear]
  constructor
  case last =>
    rw [ledger_snoc, hl, hkey]
    exact h.last
  case real =>
    rw [ledger_snoc, hl]
    intro d hd
    exact h.real d ((hhanded _ d).mp hd)
  case nodup =>
    rw [ledger_snoc, hl]
    exact h.nodup
  case apart =>
    rw [ledger_snoc, hl]
    intro r hr
    refine ⟨(h.apart r ((hclear r).mp hr)).1, fun q hq ↦ ?_⟩
    exact (h.apart r ((hclear r).mp hr)).2 q ((hclear q).mp hq)
  case uncopied =>
    rw [ledger_snoc, hl, hun, h.uncopied, hhanded]
    unfold Ledger.latest
    rw [hkey]

-- An interrupt stores a value that nobody has.
theorem FreshInv.interrupt (h : FreshInv es s) (b : ButtonIrqDesc) (pinval : BitVec 32) :
    FreshInv (es ++ [.interrupt b pinval]) (key_interrupt b pinval s) := by
  let l := ledger es
  have hlen : (l.stored ++ [storedValue b pinval]).length - 1 = l.stored.length := by
    rw [List.length_append, List.length_singleton]
    omega
  constructor
  case last =>
    rw [ledger_snoc]
    intro _
    show (l.stored ++ [storedValue b pinval])[(l.stored ++ [storedValue b pinval]).length - 1]? = _
    rw [hlen, List.getElem?_concat_length]
    rfl
  case real =>
    rw [ledger_snoc]
    intro d hd
    obtain ⟨n, v, hdv, hn⟩ := h.real d hd
    refine ⟨n, v, hdv, ?_⟩
    show (l.stored ++ [storedValue b pinval])[n]? = some v
    have hlt : n < l.stored.length := (List.getElem?_eq_some_iff.mp hn).1
    rw [List.getElem?_append_left hlt]
    exact hn
  case nodup =>
    rw [ledger_snoc]
    exact h.nodup
  case apart =>
    rw [ledger_snoc]
    exact h.apart
  case uncopied =>
    refine iff_of_true (uncopied_interrupt b pinval) ?_
    rw [ledger_snoc]
    refine ⟨List.concat_ne_nil _ _, fun hd ↦ ?_⟩
    obtain ⟨n, v, hdv, hn⟩ := h.real _ hd
    have hnl : (l.stored ++ [storedValue b pinval]).length - 1 = n := congrArg Prod.fst (Option.some.inj hdv)
    rw [← hnl, hlen] at hn
    have hlt := (List.getElem?_eq_some_iff.mp hn).1
    exact absurd hlt (Nat.lt_irrefl _)

-- A copy hands over what nobody has been given.
theorem FreshInv.copy (h : FreshInv es s) {r : Nat} (hr : s.readers r = .copying)
    (hun : Uncopied es) : FreshInv (es ++ [.copy r s.key_val]) (s.goto r .clearing) := by
  let l := ledger es
  obtain ⟨hne, hnew⟩ := h.uncopied.mp hun
  have hstep := Ledger.step_copy hne r s
  have hother : ∀ q, q ≠ r → ((s.goto r .clearing).readers q = .clearing ↔ s.readers q = .clearing) := by
    intro q hq
    rw [State.goto_of_ne s _ hq]
  have hhanded : ∀ d, Handed (l.step (.copy r s.key_val)) (s.goto r .clearing) d →
      Handed l s d ∨ d = l.latest s := by
    rw [hstep]
    rintro d (hd | ⟨q, hq, hd⟩)
    · exact Or.inl (Or.inl hd)
    · by_cases hqr : q = r
      · subst hqr
        exact Or.inr (hd.symm.trans (Function.update_self ..))
      · refine Or.inl (Or.inr ⟨q, (hother q hqr).mp hq, ?_⟩)
        rw [← hd]
        exact (Function.update_of_ne hqr ..).symm
  have hlast : Handed (l.step (.copy r s.key_val)) (s.goto r .clearing) (l.latest s) := by
    rw [hstep]
    exact Or.inr ⟨r, State.goto_same .., Function.update_self ..⟩
  constructor
  case last =>
    rw [ledger_snoc, hstep]
    exact h.last
  case real =>
    rw [ledger_snoc]
    intro d hd
    rw [show (l.step (.copy r s.key_val)).stored = l.stored from rfl]
    rcases hhanded d hd with hd | rfl
    · exact h.real d hd
    · exact ⟨_, _, rfl, h.last hne⟩
  case nodup =>
    rw [ledger_snoc]
    exact h.nodup
  case apart =>
    rw [ledger_snoc, hstep]
    intro q hq
    show Function.update l.taken r _ q ∉ l.returned ∧ ∀ p, _ → Function.update l.taken r _ p =
      Function.update l.taken r _ q → p = q
    by_cases hqr : q = r
    · subst hqr
      rw [Function.update_self]
      refine ⟨fun hmem ↦ hnew (Or.inl hmem), fun p hp heq ↦ ?_⟩
      by_contra hpq
      rw [Function.update_of_ne hpq] at heq
      exact hnew (Or.inr ⟨p, (hother p hpq).mp hp, heq⟩)
    · rw [Function.update_of_ne hqr]
      have hq' := (hother q hqr).mp hq
      refine ⟨(h.apart q hq').1, fun p hp heq ↦ ?_⟩
      by_cases hpr : p = r
      · subst hpr
        rw [Function.update_self] at heq
        exact absurd (Or.inr ⟨q, hq', heq.symm⟩) hnew
      · rw [Function.update_of_ne hpr] at heq
        exact (h.apart q hq').2 p ((hother p hpr).mp hp) heq
  case uncopied =>
    rw [ledger_snoc]
    exact iff_of_false (not_uncopied_copy r _) fun hnot ↦ hnot.2 hlast

-- The read that ends was one of those that had only to return.
theorem FreshInv.clear (h : FreshInv es s) {r : Nat} (hr : s.readers r = .clearing) :
    FreshInv (es ++ [.clear r]) { s.goto r .idle with ev_press := 0 } := by
  let l := ledger es
  let t : State := { s.goto r .idle with ev_press := 0 }
  have hclear : ∀ q, t.readers q = .clearing ↔ q ≠ r ∧ s.readers q = .clearing := by
    intro q
    show (s.goto r .idle).readers q = .clearing ↔ _
    by_cases hq : q = r
    · subst hq
      rw [State.goto_same]
      exact iff_of_false (by decide) fun hnot ↦ hnot.1 rfl
    · rw [State.goto_of_ne s _ hq]
      exact (and_iff_right hq).symm
  have hhanded : ∀ d, Handed (l.step (.clear r)) t d ↔ Handed l s d := by
    intro d
    constructor
    · rintro (hd | ⟨q, hq, hd⟩)
      · rcases List.mem_cons.mp hd with rfl | hd
        · exact Or.inr ⟨r, hr, rfl⟩
        · exact Or.inl hd
      · exact Or.inr ⟨q, ((hclear q).mp hq).2, hd⟩
    · rintro (hd | ⟨q, hq, hd⟩)
      · exact Or.inl (List.mem_cons_of_mem _ hd)
      · by_cases hqr : q = r
        · subst hqr
          exact Or.inl (List.mem_cons.mpr (Or.inl hd.symm))
        · exact Or.inr ⟨q, (hclear q).mpr ⟨hqr, hq⟩, hd⟩
  constructor
  case last =>
    rw [ledger_snoc]
    exact h.last
  case real =>
    rw [ledger_snoc]
    intro d hd
    exact h.real d ((hhanded d).mp hd)
  case nodup =>
    rw [ledger_snoc]
    exact List.nodup_cons.mpr ⟨(h.apart r hr).1, h.nodup⟩
  case apart =>
    rw [ledger_snoc]
    intro q hq
    obtain ⟨hqr, hq⟩ := (hclear q).mp hq
    refine ⟨fun hmem ↦ ?_, fun p hp ↦ (h.apart q hq).2 p ((hclear p).mp hp).2⟩
    rcases List.mem_cons.mp hmem with heq | hmem
    · exact hqr ((h.apart r hr).2 q hq heq)
    · exact (h.apart q hq).1 hmem
  case uncopied =>
    rw [ledger_snoc, uncopied_of_not rfl rfl, h.uncopied, hhanded]
    rfl

theorem freshInv_step (h : FreshInv es s) (hs : Step table s e t) (hc : CopiesFresh es s e) :
    FreshInv (es ++ [e]) t := by
  cases hs with
  | interrupt pinval _ => exact h.interrupt _ pinval
  | einval _ _ => exact h.other rfl (fun _ ↦ Iff.rfl) rfl (uncopied_of_not rfl rfl)
  | call hr =>
    exact h.other rfl (fun _ ↦ clearing_goto (by rw [hr]; decide) (by decide)) rfl (uncopied_of_not rfl rfl)
  | wake hr _ =>
    exact h.other rfl (fun _ ↦ clearing_goto (by rw [hr]; decide) (by decide)) rfl (uncopied_of_not rfl rfl)
  | signal hr =>
    exact h.other rfl (fun _ ↦ clearing_goto (by rw [hr]; decide) (by decide)) rfl (uncopied_of_not rfl rfl)
  | copy hr => exact h.copy hr (hc.1 _ _ rfl)
  | fault _ => exact absurd rfl (hc.2 _)
  | clear hr => exact h.clear hr

theorem FreshInv.fresh (h : FreshInv es s) : (ledger es).Fresh := by
  refine ⟨fun d hd ↦ h.real d (Or.inl hd), List.Nodup.map_on ?_ h.nodup⟩
  intro d hd d' hd' heq
  obtain ⟨n, v, rfl, hn⟩ := h.real d (Or.inl hd)
  obtain ⟨n', v', rfl, hn'⟩ := h.real d' (Or.inl hd')
  obtain rfl : n = n' := Option.some.inj heq
  rw [hn] at hn'
  rw [Option.some.inj hn']

theorem FreshInv.freshReads (h : FreshInv es s) : FreshReads table es s := by
  intro rs t hrun hrs
  have hinv : FreshInv (es ++ rs) t := by
    induction hrun with
    | nil => rwa [List.append_nil]
    | @snoc fs u e t _ hs ih =>
      rw [← List.append_assoc]
      obtain ⟨r, rfl⟩ := hrs e (List.mem_append_right _ (List.mem_singleton_self _))
      refine freshInv_step (ih fun f hf ↦ hrs f (List.mem_append_left _ hf)) hs ?_
      exact ⟨fun _ _ he ↦ (by cases he), fun _ he ↦ (by cases he)⟩
  exact hinv.fresh

-- Two readers that have only to return do not hand over the same.
theorem FreshReads.ne (h : FreshReads table es s) {r q : Nat} (hr : s.readers r = .clearing)
    (hq : s.readers q = .clearing) (hne : q ≠ r) : (ledger es).taken q ≠ (ledger es).taken r := by
  intro heq
  let u : State := { s.goto r .idle with ev_press := 0 }
  have hq' : u.readers q = .clearing := by
    rw [← hq]
    exact State.goto_of_ne s _ hne
  have h₁ : Run (Step table) s [.clear r] u := .snoc .nil (.clear hr)
  have h₂ : Run (Step table) s [.clear r, .clear q] _ := h₁.snoc (.clear hq')
  have hfresh := (h _ _ h₂ (by simp)).2
  rw [← List.singleton_append, ← List.append_assoc, ledger_snoc, ledger_snoc] at hfresh
  have hmem : (ledger es).taken q ∈ (ledger es).taken r :: (ledger es).returned := by
    rw [heq]
    exact List.mem_cons_self ..
  exact (List.nodup_cons.mp hfresh).1 (List.mem_map_of_mem hmem)

-- What a reader hands over once it returns is an interrupt's value that no read has returned.
theorem FreshReads.taken (h : FreshReads table es s) {r : Nat} (hr : s.readers r = .clearing) :
    (∃ n v, (ledger es).taken r = some (n, v)) ∧ (ledger es).taken r ∉ (ledger es).returned := by
  have h₁ : Run (Step table) s [.clear r] _ := .snoc .nil (.clear hr)
  have hfresh := h _ _ h₁ (by simp)
  rw [ledger_snoc] at hfresh
  obtain ⟨n, v, hd, _⟩ := hfresh.1 _ (List.mem_cons_self ..)
  exact ⟨⟨n, v, hd⟩, (List.nodup_cons.mp hfresh.2.of_map).1⟩

-- A copy of a value that has been handed over, or that there is not, shows when the read returns.
theorem copiesFresh_of_freshReads (h : FreshInv es s) (hs : Step table s e t)
    (hf : FreshReads table (es ++ [e]) t) : CopiesFresh es s e := by
  constructor
  · rintro r v rfl
    cases hs with
    | copy hr =>
      have hclear : (s.goto r .clearing).readers r = .clearing := State.goto_same ..
      obtain ⟨⟨n, v, hd⟩, hnot⟩ := hf.taken hclear
      rw [ledger_snoc] at hd hnot
      have hne : (ledger es).stored ≠ [] := by
        intro hnil
        have hd : Function.update (ledger es).taken r
            (if (ledger es).stored = [] then none else _) r = some (n, v) := hd
        rw [Function.update_self, if_pos hnil] at hd
        cases hd
      rw [Ledger.step_copy hne] at hnot
      have hlatest : (ledger es).latest s ∉ (ledger es).returned := by
        have hself : Function.update (ledger es).taken r ((ledger es).latest s) r = _ :=
          Function.update_self ..
        rw [← hself]
        exact hnot
      refine h.uncopied.mpr ⟨hne, fun hhanded ↦ ?_⟩
      rcases hhanded with hmem | ⟨q, hq, heq⟩
      · exact hlatest hmem
      · have hqr : q ≠ r := by
          rintro rfl
          rw [hr] at hq
          cases hq
        refine hf.ne hclear ((State.goto_of_ne s _ hqr).trans hq) hqr ?_
        rw [ledger_snoc, Ledger.step_copy hne]
        show Function.update (ledger es).taken r _ q = Function.update (ledger es).taken r _ r
        rw [Function.update_self, Function.update_of_ne hqr, heq]
  · rintro r rfl
    cases hs with
    | fault hr =>
      obtain ⟨⟨n, v, hd⟩, _⟩ := hf.taken (State.goto_same s r .clearing)
      rw [ledger_snoc] at hd
      have hd : Function.update (ledger es).taken r none r = some (n, v) := hd
      rw [Function.update_self] at hd
      cases hd

/-- Every read delivers an interrupt of its own exactly in the runs in which `copy_to_user` succeeds
and never copies a value that it has copied before or that no interrupt has stored. -/
theorem freshReads_iff : GuardedRun (Step table) CopiesFresh State.init es s ↔
    KeepingRun (Step table) (FreshReads table) State.init es s :=
  guardedRun_iff_keepingRun FreshInv freshInv_init (fun _ _ h ↦ h.freshReads)
    (fun _ _ _ _ h hs hc ↦ freshInv_step h hs hc) fun _ _ _ _ h hs hf ↦ copiesFresh_of_freshReads h hs hf

end Ledger

/-- Two readers pass the wait on one press of the first button, and both return its value; and a reader
that a signal gets out of the wait returns 1 before any button was pressed. -/
theorem stale_reads :
    (∃ es s, Run (Step (button_irqs (fun n ↦ 32 + n) fun n ↦ n)) State.init es s ∧
      (ledger es).returned = [some (0, 1), some (0, 1)] ∧ ¬(ledger es).Fresh) ∧
    ∃ es s, Run (Step (button_irqs (fun n ↦ 32 + n) fun n ↦ n)) State.init es s ∧
      (ledger es).returned = [none] ∧ ¬(ledger es).Fresh := by
  let table := button_irqs (fun n ↦ 32 + n) fun n ↦ n
  let b₁ : ButtonIrqDesc := ⟨32, 0, 0x01⟩
  have hb₁ : b₁ ∈ table := by decide
  constructor
  · let s₁ := key_interrupt b₁ 0 State.init
    let s₃ := (s₁.goto 0 .waiting).goto 1 .waiting
    let s₅ := (s₃.goto 0 .copying).goto 1 .copying
    let s₇ := (s₅.goto 0 .clearing).goto 1 .clearing
    have h₁ : Run (Step table) State.init [.interrupt b₁ 0] s₁ := .snoc .nil (.interrupt 0 hb₁)
    have h₂ := h₁.snoc (.call (r := 0) rfl)
    have h₃ := h₂.snoc (.call (r := 1) rfl)
    have h₄ := h₃.snoc (.wake (s := s₃) (r := 0) rfl Int.one_ne_zero)
    have h₅ := h₄.snoc (.wake (r := 1) rfl Int.one_ne_zero)
    have h₆ := h₅.snoc (.copy (s := s₅) (r := 0) rfl)
    have h₇ := h₆.snoc (.copy (r := 1) rfl)
    have h₈ := h₇.snoc (.clear (s := s₇) (r := 0) rfl)
    have h₉ := h₈.snoc (.clear (r := 1) rfl)
    refine ⟨_, _, h₉, rfl, fun hfresh ↦ ?_⟩
    have hnodup : [some 0, some 0].Nodup := hfresh.2
    exact absurd hnodup (by decide)
  · have h₁ : Run (Step table) State.init _ _ := .snoc .nil (.call (r := 0) rfl)
    have h₂ := h₁.snoc (.signal (r := 0) rfl)
    have h₃ := h₂.snoc (.copy (r := 0) rfl)
    have h₄ := h₃.snoc (.clear (r := 0) rfl)
    refine ⟨_, _, h₄, rfl, fun hfresh ↦ ?_⟩
    obtain ⟨n, v, hd, _⟩ := hfresh.1 none (List.mem_cons_self ..)
    cases hd

end OK210Drivers.Key
