import Mathlib.Data.List.DropRight
import Mathlib.Data.List.Forall2
import Mathlib.Data.List.Induction

/-!
# Runs of labelled step relations

A system is a step relation `step s e t`: in state `s` it can take a step labelled `e` to `t`.  A run
carries the labels in the order in which they were taken, so a property of a run may speak about
its history as well as about the state reached.
-/

namespace Library

variable {σ τ ε δ : Type*}

/-- Runs from `s₀`: the labels of the steps taken so far and the state reached. -/
inductive Run (step : σ → ε → σ → Prop) (s₀ : σ) : List ε → σ → Prop
  | nil : Run step s₀ [] s₀
  | snoc {es s e t} : Run step s₀ es s → step s e t → Run step s₀ (es ++ [e]) t

/-- The runs of which every step from `s` by `e` to `t`, taken after the history `es`, has
`P es s e t`. -/
inductive RunWhere (step : σ → ε → σ → Prop) (P : List ε → σ → ε → σ → Prop) (s₀ : σ) :
    List ε → σ → Prop
  | nil : RunWhere step P s₀ [] s₀
  | snoc {es s e t} : RunWhere step P s₀ es s → step s e t → P es s e t →
      RunWhere step P s₀ (es ++ [e]) t

/-- The runs whose steps are taken only when a condition on the history, the state they leave and
their label is met. -/
def GuardedRun (step : σ → ε → σ → Prop) (C : List ε → σ → ε → Prop) :
    σ → List ε → σ → Prop :=
  RunWhere step fun es s e _ ↦ C es s e

/-- The runs that have a property at the start and after every step. -/
def KeepingRun (step : σ → ε → σ → Prop) (P : List ε → σ → Prop) (s₀ : σ) (es : List ε) (s : σ) :
    Prop :=
  P [] s₀ ∧ RunWhere step (fun es _ e t ↦ P (es ++ [e]) t) s₀ es s

/-- The past-time "since": some label of a history has `p`, and all the later ones have `q`. -/
def Since (p q : ε → Prop) (es : List ε) : Prop :=
  ∃ pre e post, es = pre ++ e :: post ∧ p e ∧ ∀ f ∈ post, q f

/-- Every label of a history has `p` of the labels before it. -/
def Always (p : List ε → ε → Prop) (es : List ε) : Prop :=
  ∀ pre e post, es = pre ++ e :: post → p pre e

/-- The value of the last label of a history that has one. -/
def lastSome (f : ε → Option δ) (es : List ε) : Option δ := (es.filterMap f).getLast?

/-- The labels of a history after the last one that has `p`. -/
def afterLast (p : ε → Bool) (es : List ε) : List ε := es.rtakeWhile fun e ↦ !p e

theorem lastSome_snoc (f : ε → Option δ) (es : List ε) (e : ε) :
    lastSome f (es ++ [e]) = (f e).or (lastSome f es) := by
  unfold lastSome
  rw [List.filterMap_append]
  cases h : f e with
  | none => rw [List.filterMap_cons_none h, List.filterMap_nil, List.append_nil, Option.none_or]
  | some d => rw [List.filterMap_cons_some h, List.filterMap_nil, List.getLast?_concat, Option.some_or]

theorem afterLast_snoc_pos {p : ε → Bool} {es : List ε} {e : ε} (h : p e = true) :
    afterLast p (es ++ [e]) = [] :=
  List.rtakeWhile_concat_neg _ _ _ (by rw [h]; decide)

theorem afterLast_snoc_neg {p : ε → Bool} {es : List ε} {e : ε} (h : p e = false) :
    afterLast p (es ++ [e]) = afterLast p es ++ [e] :=
  List.rtakeWhile_concat_pos _ _ _ (by rw [h]; decide)

theorem always_nil {p : List ε → ε → Prop} : Always p [] := by
  intro pre e post he
  simp at he

theorem always_snoc {p : List ε → ε → Prop} {es : List ε} {e : ε} :
    Always p (es ++ [e]) ↔ Always p es ∧ p es e := by
  constructor
  · intro h
    refine ⟨fun pre f post he ↦ h pre f (post ++ [e]) ?_, h es e [] rfl⟩
    rw [he, List.append_assoc, List.cons_append]
  · rintro ⟨h, hlast⟩ pre f post he
    rcases List.eq_nil_or_concat post with rfl | ⟨post, g, rfl⟩
    · rcases List.append_inj' he rfl with ⟨rfl, hf⟩
      cases hf
      exact hlast
    · rw [List.concat_eq_append, ← List.cons_append, ← List.append_assoc] at he
      exact h pre f post (List.append_inj' he rfl).1

theorem not_since_nil {p q : ε → Prop} : ¬ Since p q [] := by
  rintro ⟨pre, e, post, he, _⟩
  simp at he

theorem since_snoc {p q : ε → Prop} {es : List ε} {e : ε} :
    Since p q (es ++ [e]) ↔ p e ∨ Since p q es ∧ q e := by
  constructor
  · rintro ⟨pre, f, post, he, hf, hpost⟩
    rcases List.eq_nil_or_concat post with rfl | ⟨post, g, rfl⟩
    · have hef : e = f := by simpa using (List.append_inj' he rfl).2
      exact Or.inl (hef ▸ hf)
    · rw [List.concat_eq_append] at he hpost
      rw [← List.cons_append, ← List.append_assoc] at he
      rcases List.append_inj' he rfl with ⟨hes, heg⟩
      have heg : e = g := by simpa using heg
      refine Or.inr ⟨⟨pre, f, post, hes, hf, fun x hx ↦ hpost x ?_⟩, heg ▸ hpost g ?_⟩
      · exact List.mem_append_left _ hx
      · exact List.mem_append_right _ (List.mem_singleton_self g)
  · rintro (he | ⟨⟨pre, f, post, rfl, hf, hpost⟩, hq⟩)
    · exact ⟨es, e, [], rfl, he, by simp⟩
    · refine ⟨pre, f, post ++ [e], by simp, hf, fun x hx ↦ ?_⟩
      rcases List.mem_append.mp hx with hx | hx
      · exact hpost x hx
      · rwa [List.mem_singleton.mp hx]

namespace Run

variable {step : σ → ε → σ → Prop} {s₀ : σ}

/-- Induction over runs for a property of the history and the state. -/
theorem invariant (I : List ε → σ → Prop) (h0 : I [] s₀)
    (hs : ∀ es s e t, Run step s₀ es s → I es s → step s e t → I (es ++ [e]) t)
    {es : List ε} {s : σ} (h : Run step s₀ es s) : I es s := by
  induction h with
  | nil => exact h0
  | snoc hr ht ih => exact hs _ _ _ _ hr ih ht

/-- A property of states that every step keeps holds in every state reached. -/
theorem state_invariant (I : σ → Prop) (h0 : I s₀) (hs : ∀ s e t, I s → step s e t → I t)
    {es : List ε} {s : σ} (h : Run step s₀ es s) : I s :=
  h.invariant (fun _ s ↦ I s) h0 fun _ s e t _ hi ht ↦ hs s e t hi ht

/-- A run is a run of any system that has its steps. -/
theorem mono {step' : σ → ε → σ → Prop} (hs : ∀ s e t, step s e t → step' s e t)
    {es : List ε} {s : σ} (h : Run step s₀ es s) : Run step' s₀ es s := by
  induction h with
  | nil => exact .nil
  | snoc _ ht ih => exact .snoc ih (hs _ _ _ ht)

-- A run put together from its first step on.
theorem cons {e : ε} {s : σ} (ht : step s₀ e s) {es : List ε} {t : σ} (h : Run step s es t) :
    Run step s₀ (e :: es) t := by
  induction h with
  | nil => exact .snoc .nil ht
  | snoc _ hu ih => exact .snoc ih hu

theorem append {es fs : List ε} {s t : σ} (h : Run step s₀ es s) (h' : Run step s fs t) :
    Run step s₀ (es ++ fs) t := by
  induction h' with
  | nil => rwa [List.append_nil]
  | snoc _ ht ih =>
    rw [← List.append_assoc]
    exact .snoc ih ht

/-- A step function that goes through a list of labels makes a run of it. -/
theorem of_foldlM {f : σ → ε → Option σ} {es : List ε} {t : σ} (h : es.foldlM f s₀ = some t) :
    Run (fun s e t ↦ f s e = some t) s₀ es t := by
  induction es generalizing s₀ with
  | nil =>
    cases h
    exact .nil
  | cons e es ih =>
    rw [List.foldlM_cons] at h
    obtain ⟨s, hs, h⟩ := Option.bind_eq_some_iff.mp h
    exact cons hs (ih h)

theorem nil_inv {s : σ} (h : Run step s₀ [] s) : s = s₀ := by
  generalize he : ([] : List ε) = es at h
  cases h with
  | nil => rfl
  | snoc => simp at he

theorem cons_inv {e : ε} {es : List ε} {t : σ} (h : Run step s₀ (e :: es) t) :
    ∃ s, step s₀ e s ∧ Run step s es t := by
  generalize he : e :: es = es' at h
  induction h generalizing es with
  | nil => cases he
  | @snoc fs s f t hr ht ih =>
    cases fs with
    | nil =>
      obtain ⟨rfl, rfl⟩ : e = f ∧ es = [] := by simpa using he
      exact ⟨t, hr.nil_inv ▸ ht, .nil⟩
    | cons g fs =>
      obtain ⟨rfl, rfl⟩ : e = g ∧ es = fs ++ [f] := by simpa using he
      obtain ⟨u, hu, hr'⟩ := ih rfl
      exact ⟨u, hu, .snoc hr' ht⟩

theorem snoc_inv {es : List ε} {e : ε} {t : σ} (h : Run step s₀ (es ++ [e]) t) :
    ∃ s, Run step s₀ es s ∧ step s e t := by
  generalize he : es ++ [e] = es' at h
  cases h with
  | nil => simp at he
  | @snoc fs s f _ hr ht =>
    obtain ⟨rfl, hef⟩ := List.append_inj' he rfl
    obtain rfl : e = f := by simpa using hef
    exact ⟨s, hr, ht⟩

/-- Every prefix of a run's history is the history of a run. -/
theorem of_append {es fs : List ε} {t : σ} (h : Run step s₀ (es ++ fs) t) :
    ∃ s, Run step s₀ es s := by
  induction fs using List.reverseRecOn generalizing t with
  | nil => exact ⟨t, by simpa using h⟩
  | append_singleton fs f ih =>
    rw [← List.append_assoc] at h
    obtain ⟨s, hs, _⟩ := h.snoc_inv
    exact ih hs

/-- A forward simulation maps every run to a run of the abstract system whose labels are related
one by one. -/
theorem simulate {astep : τ → δ → τ → Prop} {t₀ : τ} (R : σ → τ → Prop) (E : ε → δ → Prop)
    (h0 : R s₀ t₀)
    (hs : ∀ s e s' t, R s t → step s e s' → ∃ d t', astep t d t' ∧ E e d ∧ R s' t')
    {es : List ε} {s : σ} (h : Run step s₀ es s) :
    ∃ ds t, Run astep t₀ ds t ∧ List.Forall₂ E es ds ∧ R s t := by
  induction h with
  | nil => exact ⟨[], t₀, .nil, .nil, h0⟩
  | snoc _ ht ih =>
    obtain ⟨ds, t, hr, hE, hR⟩ := ih
    obtain ⟨d, t', hd, he, hR'⟩ := hs _ _ _ t hR ht
    exact ⟨ds ++ [d], t', .snoc hr hd, List.rel_append hE (.cons he .nil), hR'⟩

/-- The labels of a history that mean a step of an abstract system make a run of it, when its state is a
function of the history that the others leave alone. -/
theorem of_labels {astep : τ → δ → τ → Prop} {f : ε → Option δ} (A : List ε → τ)
    (hquiet : ∀ es e, f e = none → A (es ++ [e]) = A es) {es : List ε}
    (h : Always (fun pre e ↦ ∀ d, f e = some d → astep (A pre) d (A (pre ++ [e]))) es) :
    Run astep (A []) (es.filterMap f) (A es) := by
  induction es using List.reverseRecOn with
  | nil => exact .nil
  | append_singleton es e ih =>
    obtain ⟨h, hlast⟩ := always_snoc.mp h
    rw [List.filterMap_append]
    cases he : f e with
    | none =>
      rw [List.filterMap_cons_none he, List.filterMap_nil, List.append_nil, hquiet es e he]
      exact ih h
    | some d =>
      rw [List.filterMap_cons_some he, List.filterMap_nil]
      exact .snoc (ih h) (hlast d he)

/-- Two systems in lockstep: when steps with related labels keep a relation of the states, and the
labels are then related in a second way, so are the runs whose labels are related one by one. -/
theorem lockstep {astep : τ → δ → τ → Prop} {t₀ : τ} (R : σ → τ → Prop) {E F : ε → δ → Prop}
    (hs : ∀ s t e d s' t', R s t → step s e s' → astep t d t' → E e d → R s' t' ∧ F e d)
    (h0 : R s₀ t₀) {es : List ε} {ds : List δ} {s : σ} {t : τ} (h : Run step s₀ es s)
    (h' : Run astep t₀ ds t) (hE : List.Forall₂ E es ds) : R s t ∧ List.Forall₂ F es ds := by
  induction hE generalizing s₀ t₀ with
  | nil =>
    rw [h.nil_inv, h'.nil_inv]
    exact ⟨h0, .nil⟩
  | cons he _ ih =>
    obtain ⟨s₁, hs₁, hr⟩ := h.cons_inv
    obtain ⟨t₁, ht₁, hr'⟩ := h'.cons_inv
    obtain ⟨h1, hf⟩ := hs _ _ _ _ _ _ h0 hs₁ ht₁ he
    obtain ⟨hR, hF⟩ := ih h1 hr hr'
    exact ⟨hR, .cons hf hF⟩

/-- When steps with related labels from one state lead to one state, so do runs whose labels are
related one by one. -/
theorem related {E F : ε → ε → Prop}
    (hs : ∀ s e e' t t', step s e t → step s e' t' → E e e' → t = t' ∧ F e e')
    {es es' : List ε} {t t' : σ} (h : Run step s₀ es t) (h' : Run step s₀ es' t')
    (hE : List.Forall₂ E es es') : t = t' ∧ List.Forall₂ F es es' := by
  refine h.lockstep Eq ?_ rfl h' hE
  intro s s' e e' t t' he hst hst' hee
  subst he
  exact hs _ _ _ _ _ hst hst' hee

/-- When the steps that count bring a goal nearer and the others leave it where it is, a run with enough
of them passes through it. -/
theorem within (I : ℕ → σ → Prop) (G : σ → Prop) (counts : ε → Bool)
    (hs : ∀ n s e t, I n s → step s e t → G t ∨ ∃ m, I m t ∧ m + (if counts e = true then 1 else 0) ≤ n)
    {n : ℕ} {s t : σ} (h : I n s) {es : List ε} (hr : Run step s es t) (hlong : n < es.countP counts) :
    ∃ pre u post, es = pre ++ post ∧ Run step s pre u ∧ Run step u post t ∧ G u := by
  induction es generalizing n s with
  | nil => exact absurd hlong (Nat.not_lt_zero n)
  | cons e es ih =>
    obtain ⟨u, hu, hr⟩ := hr.cons_inv
    rcases hs n s e u h hu with hg | ⟨m, hm, hle⟩
    · exact ⟨[e], u, es, rfl, .snoc .nil hu, hr, hg⟩
    · rw [List.countP_cons] at hlong
      obtain ⟨pre, v, post, rfl, hpre, hpost, hg⟩ := ih hm hr (by omega)
      exact ⟨e :: pre, v, post, rfl, hpre.cons hu, hpost, hg⟩

end Run

namespace RunWhere

variable {step : σ → ε → σ → Prop} {P Q : List ε → σ → ε → σ → Prop} {s₀ : σ}

theorem run {es : List ε} {s : σ} (h : RunWhere step P s₀ es s) : Run step s₀ es s := by
  induction h with
  | nil => exact .nil
  | snoc _ ht _ ih => exact .snoc ih ht

/-- Induction over the runs whose steps all have `P`. -/
theorem invariant (I : List ε → σ → Prop) (h0 : I [] s₀)
    (hs : ∀ es s e t, I es s → step s e t → P es s e t → I (es ++ [e]) t)
    {es : List ε} {s : σ} (h : RunWhere step P s₀ es s) : I es s := by
  induction h with
  | nil => exact h0
  | snoc _ ht hp ih => exact hs _ _ _ _ ih ht hp

/-- A condition on steps gives way to a weaker one where an invariant of its runs holds. -/
theorem imp_of_invariant (I : List ε → σ → Prop) (h0 : I [] s₀)
    (hs : ∀ es s e t, I es s → step s e t → P es s e t → I (es ++ [e]) t)
    (hPQ : ∀ es s e t, I es s → step s e t → P es s e t → Q es s e t)
    {es : List ε} {s : σ} (h : RunWhere step P s₀ es s) : RunWhere step Q s₀ es s := by
  induction h with
  | nil => exact .nil
  | snoc hr ht hp ih => exact .snoc ih ht (hPQ _ _ _ _ (hr.invariant I h0 hs) ht hp)

/-- Two conditions on steps allow the same runs when they agree wherever an invariant holds that
the steps allowed by the first one keep. -/
theorem iff_of_invariant (I : List ε → σ → Prop) (h0 : I [] s₀)
    (hs : ∀ es s e t, I es s → step s e t → P es s e t → I (es ++ [e]) t)
    (hPQ : ∀ es s e t, I es s → step s e t → (P es s e t ↔ Q es s e t))
    {es : List ε} {s : σ} : RunWhere step P s₀ es s ↔ RunWhere step Q s₀ es s := by
  constructor
  · exact imp_of_invariant I h0 hs fun es s e t hi ht ↦ (hPQ es s e t hi ht).mp
  · intro h
    induction h with
    | nil => exact .nil
    | snoc _ ht hq ih => exact .snoc ih ht ((hPQ _ _ _ _ (ih.invariant I h0 hs) ht).mpr hq)

end RunWhere

/-- When a guard is exactly what a step needs to keep `P`, the guarded runs are the runs that keep
`P` throughout. -/
theorem guardedRun_iff_keepingRun {step : σ → ε → σ → Prop} {C : List ε → σ → ε → Prop}
    {P : List ε → σ → Prop} {s₀ : σ} (I : List ε → σ → Prop) (h0 : I [] s₀) (hIP : ∀ es s, I es s → P es s)
    (hs : ∀ es s e t, I es s → step s e t → C es s e → I (es ++ [e]) t)
    (hbreak : ∀ es s e t, I es s → step s e t → P (es ++ [e]) t → C es s e)
    {es : List ε} {s : σ} : GuardedRun step C s₀ es s ↔ KeepingRun step P s₀ es s := by
  refine (RunWhere.iff_of_invariant I h0 hs fun es s e t hi ht ↦ ?_).trans
    (and_iff_right (hIP _ _ h0)).symm
  exact ⟨fun hc ↦ hIP _ _ (hs es s e t hi ht hc), hbreak es s e t hi ht⟩

end Library
