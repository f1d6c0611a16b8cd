import OK210Drivers.Key.Lines

/-!
# The interrupt lines and the open handles

The request loop looks only at its last answer, and the rollback frees every line of the table under the
entry that any other open registered it with.  So all is well exactly as long as every open finds
the whole table free.
-/

open Library

namespace OK210Drivers.Key.Lines

-- The lines after a list of entries has been registered or freed one by one.
def assign (f : Nat → Option Nat) (bs : List (ButtonIrqDesc × Nat)) (lines : Nat → Option Nat) :
    Nat → Option Nat :=
  bs.foldl (fun m p ↦ Function.update m p.1.irq (f p.2)) lines

/-- Every line of the table is registered for its own entry, and no other line is registered. -/
structure AllRegistered (table : List ButtonIrqDesc) (lines : Nat → Option Nat) : Prop where
  entry : ∀ p ∈ table.zipIdx, lines p.1.irq = some p.2
  other : ∀ irq, irq ∉ table.map ButtonIrqDesc.irq → lines irq = none

/-- The lines of the table are distinct, none is registered, and there is no other reason to refuse
one of them. -/
structure AllFree (table : List ButtonIrqDesc) (errors : Nat → Int) (lines : Nat → Option Nat) :
    Prop where
  distinct : (table.zipIdx.map fun p ↦ p.1.irq).Nodup
  free : ∀ p ∈ table.zipIdx, lines p.1.irq = none ∧ errors p.2 = 0

/-- Every open finds the table free. -/
def OpensFree (table : List ButtonIrqDesc) (_ : List Event) (s : State) (e : Event) : Prop :=
  ∀ c errors ret calls, e = .openKey c errors ret calls → AllFree table errors s.lines

/-- What a call of `irq_key_open` or `irq_key_close` should do about the lines. -/
structure LinesFollow (table : List ButtonIrqDesc) (s : State) (e : Event) (t : State) : Prop where
  -- 0 is returned only if every line was requested and granted
  granted : ∀ c errors calls, e = .openKey c errors 0 calls → ∀ p ∈ table.zipIdx,
    (∃ err, .request p.1.irq p.2 err ∈ calls) ∧
      ∀ err, .request p.1.irq p.2 err ∈ calls → err = 0
  -- a failed open leaves the registered lines as they were
  unchanged : ∀ c errors calls, e = .openKey c errors (-EBUSY) calls →
    ∀ irq, (t.lines irq).isSome = (s.lines irq).isSome
  -- what is freed is registered
  found : ∀ irq dev_id found, .free irq dev_id found ∈ e.calls → found = true
  -- the lines are registered as long as a handle is open
  held : (∃ c, 0 < t.handles c) → ∀ b ∈ table, (t.lines b.irq).isSome

section Assign

variable {f : Nat → Option Nat} {bs : List (ButtonIrqDesc × Nat)} {lines : Nat → Option Nat} {irq : Nat}

theorem assign_cons (p : ButtonIrqDesc × Nat) :
    assign f (p :: bs) lines = assign f bs (Function.update lines p.1.irq (f p.2)) := rfl

theorem assign_of_notMem (h : irq ∉ bs.map fun p ↦ p.1.irq) : assign f bs lines irq = lines irq := by
  induction bs generalizing lines with
  | nil => rfl
  | cons p bs ih =>
    rw [List.map_cons, List.mem_cons, not_or] at h
    rw [assign_cons, ih h.2, Function.update_of_ne h.1]

theorem assign_mem (hd : (bs.map fun p ↦ p.1.irq).Nodup) {p : ButtonIrqDesc × Nat} (hp : p ∈ bs) :
    assign f bs lines p.1.irq = f p.2 := by
  induction bs generalizing lines with
  | nil => cases hp
  | cons q bs ih =>
    rw [List.map_cons, List.nodup_cons] at hd
    rw [assign_cons]
    rcases List.mem_cons.mp hp with rfl | hp
    · rw [assign_of_notMem hd.1, Function.update_self]
    · exact ih hd.2 hp

end Assign

section Loops

variable {errors : Nat → Int} {bs : List (ButtonIrqDesc × Nat)} {l : Irqs} {err : Int} {irq dev_id : Nat}

-- The request loop over lines that are all granted.
theorem request_lines_granted (hd : (bs.map fun p ↦ p.1.irq).Nodup)
    (hfree : ∀ p ∈ bs, l.lines p.1.irq = none ∧ errors p.2 = 0) :
    request_lines errors bs (0, l) =
      (0, ⟨assign some bs l.lines, l.calls ++ bs.map fun p ↦ .request p.1.irq p.2 0⟩) := by
  induction bs generalizing l with
  | nil => simp [assign]
  | cons p bs ih =>
    rw [List.map_cons, List.nodup_cons] at hd
    have hp := hfree p (List.mem_cons_self ..)
    have hreq : request_irq p.1.irq p.2 (errors p.2) l =
        (0, ⟨Function.update l.lines p.1.irq (some p.2), l.calls ++ [.request p.1.irq p.2 0]⟩) := by
      rw [request_irq, hp.1, hp.2, if_neg (by simp), if_neg (by simp)]
    rw [request_lines_cons, hreq, ih hd.2]
    · simp [assign]
    · intro q hq
      have hne : q.1.irq ≠ p.1.irq := by
        intro h
        exact hd.1 (List.mem_map.mpr ⟨q, hq, h⟩)
      show Function.update l.lines p.1.irq (some p.2) q.1.irq = none ∧ _
      rw [Function.update_of_ne hne]
      exact hfree q (List.mem_cons_of_mem p hq)

-- When every request on record was granted, all the lines were free.
theorem free_of_granted (acc : Int × Irqs) (h : ∀ p ∈ bs, ∀ err,
      .request p.1.irq p.2 err ∈ (request_lines errors bs acc).2.calls → err = 0) :
    (bs.map fun p ↦ p.1.irq).Nodup ∧ ∀ p ∈ bs, acc.2.lines p.1.irq = none ∧ errors p.2 = 0 := by
  induction bs generalizing acc with
  | nil => exact ⟨List.nodup_nil, by simp⟩
  | cons p bs ih =>
    rw [request_lines_cons] at h
    have hcall : .request p.1.irq p.2 (request_irq p.1.irq p.2 (errors p.2) acc.2).1 ∈
        (request_irq p.1.irq p.2 (errors p.2) acc.2).2.calls := by
      rw [request_irq_calls]
      exact List.mem_append_right _ (List.mem_singleton_self _)
    have hret := h p (List.mem_cons_self ..) _ (mem_calls_request_lines _ hcall)
    rcases request_irq_cases p.1.irq p.2 (errors p.2) acc.2 with ⟨_, hne, _⟩ | ⟨hnone, herr, _, hl⟩
    · exact absurd hret hne
    · have hrest := ih _ fun q hq ↦ h q (List.mem_cons_of_mem p hq)
      rw [hl] at hrest
      have hne : ∀ q ∈ bs, q.1.irq ≠ p.1.irq := by
        intro q hq heq
        have hq' := (hrest.2 q hq).1
        rw [heq, Function.update_self] at hq'
        cases hq'
      refine ⟨?_, fun q hq ↦ ?_⟩
      · rw [List.map_cons, List.nodup_cons]
        refine ⟨fun hmem ↦ ?_, hrest.1⟩
        rcases List.mem_map.mp hmem with ⟨q, hq, heq⟩
        exact hne q hq heq
      · rcases List.mem_cons.mp hq with rfl | hq
        · exact ⟨hnone, herr⟩
        · have hq' := hrest.2 q hq
          rwa [Function.update_of_ne (hne q hq)] at hq'

-- Every line is requested.
theorem requested (acc : Int × Irqs) {p : ButtonIrqDesc × Nat} (hp : p ∈ bs) :
    ∃ err, .request p.1.irq p.2 err ∈ (request_lines errors bs acc).2.calls := by
  induction bs generalizing acc with
  | nil => cases hp
  | cons q bs ih =>
    rw [request_lines_cons]
    rcases List.mem_cons.mp hp with rfl | hp
    · refine ⟨(request_irq p.1.irq p.2 (errors p.2) acc.2).1, mem_calls_request_lines _ ?_⟩
      rw [request_irq_calls]
      exact List.mem_append_right _ (List.mem_singleton_self _)
    · exact ih _ hp

-- A registration there is after the request loop is an old one or one of an entry gone through.
theorem registered_before (acc : Int × Irqs)
    (h : (request_lines errors bs acc).2.lines irq = some dev_id) :
    acc.2.lines irq = some dev_id ∨ dev_id ∈ bs.map Prod.snd := by
  induction bs generalizing acc with
  | nil => exact Or.inl h
  | cons p bs ih =>
    rw [request_lines_cons] at h
    rcases ih _ h with hp | hmem
    · rcases request_irq_cases p.1.irq p.2 (errors p.2) acc.2 with ⟨_, _, hl⟩ | ⟨_, _, _, hl⟩
      · exact Or.inl (hl ▸ hp)
      · rw [hl] at hp
        by_cases heq : irq = p.1.irq
        · rw [heq, Function.update_self, Option.some.injEq] at hp
          exact Or.inr (by simp [hp])
        · rw [Function.update_of_ne heq] at hp
          exact Or.inl hp
    · exact Or.inr (List.mem_cons_of_mem _ hmem)

theorem free_lines_found (hd : (bs.map fun p ↦ p.1.irq).Nodup)
    (hreg : ∀ p ∈ bs, l.lines p.1.irq = some p.2) :
    free_lines bs l = ⟨assign (fun _ ↦ none) bs l.lines,
      l.calls ++ bs.map fun p ↦ .free p.1.irq p.2 true⟩ := by
  induction bs generalizing l with
  | nil => simp [assign]
  | cons p bs ih =>
    rw [List.map_cons, List.nodup_cons] at hd
    rw [free_lines_cons, free_irq_found (hreg p (List.mem_cons_self ..)), ih hd.2]
    · simp [assign]
    · intro q hq
      have hne : q.1.irq ≠ p.1.irq := by
        intro h
        exact hd.1 (List.mem_map.mpr ⟨q, hq, h⟩)
      show Function.update l.lines p.1.irq none q.1.irq = some q.2
      rw [Function.update_of_ne hne]
      exact hreg q (List.mem_cons_of_mem p hq)

theorem free_lines_none (h : l.lines irq = none) : (free_lines bs l).lines irq = none := by
  induction bs generalizing l with
  | nil => exact h
  | cons p bs ih =>
    rw [free_lines_cons]
    apply ih
    by_cases hp : l.lines p.1.irq = some p.2
    · rw [free_irq_found hp]
      show Function.update l.lines p.1.irq none irq = none
      by_cases heq : irq = p.1.irq
      · rw [heq, Function.update_self]
      · rw [Function.update_of_ne heq, h]
    · rw [free_irq_missed hp]
      exact h

-- When every free on record found its line, all the lines were registered, and none is any more.
theorem registered_of_found
    (h : ∀ irq dev_id found, .free irq dev_id found ∈ (free_lines bs l).calls → found = true) :
    ∀ p ∈ bs, l.lines p.1.irq = some p.2 ∧ (free_lines bs l).lines p.1.irq = none := by
  induction bs generalizing l with
  | nil => simp
  | cons p bs ih =>
    rw [free_lines_cons] at h ⊢
    have hp : l.lines p.1.irq = some p.2 := by
      by_contra hp
      rw [free_irq_missed hp] at h
      have hcall := h p.1.irq p.2 false (mem_calls_free_lines (by simp))
      cases hcall
    have hrest := ih h
    rw [free_irq_found hp] at hrest ⊢
    intro q hq
    rcases List.mem_cons.mp hq with rfl | hq
    · exact ⟨hp, free_lines_none (Function.update_self ..)⟩
    · rcases hrest q hq with ⟨hq, hnone⟩
      have hq : Function.update l.lines p.1.irq none q.1.irq = some q.2 := hq
      refine ⟨?_, hnone⟩
      by_cases heq : q.1.irq = p.1.irq
      · rw [heq, Function.update_self] at hq
        cases hq
      · rwa [Function.update_of_ne heq] at hq

end Loops

section Calls

variable {table : List ButtonIrqDesc} {errors : Nat → Int} {s : State} {l : Irqs} {ret : Int}

theorem snd_zipIdx_nodup (table : List ButtonIrqDesc) : (table.zipIdx.map Prod.snd).Nodup := by
  rw [List.zipIdx_map_snd]
  exact List.nodup_range' ..

theorem mem_zipIdx_of_mem {b : ButtonIrqDesc} (h : b ∈ table) : ∃ i, (b, i) ∈ table.zipIdx := by
  rcases List.getElem?_of_mem h with ⟨i, hi⟩
  exact ⟨i, List.mk_mem_zipIdx_iff_getElem?.mpr hi⟩

theorem AllRegistered.distinct {lines : Nat → Option Nat} (h : AllRegistered table lines) :
    (table.zipIdx.map fun p ↦ p.1.irq).Nodup := by
  apply List.Nodup.map_on
  · rintro ⟨b, i⟩ hp ⟨b', j⟩ hq (heq : b.irq = b'.irq)
    have hi := h.entry _ hp
    have hj := h.entry _ hq
    simp only [heq] at hi hj
    obtain rfl : i = j := by simpa using hi.symm.trans hj
    rw [List.mk_mem_zipIdx_iff_getElem?] at hp hq
    rw [Option.some.inj (hp.symm.trans hq)]
  · exact (snd_zipIdx_nodup table).of_map Prod.snd

theorem map_irq_zipIdx : table.zipIdx.map (fun p ↦ p.1.irq) = table.map ButtonIrqDesc.irq := by
  show table.zipIdx.map (ButtonIrqDesc.irq ∘ Prod.fst) = _
  rw [← List.map_map, List.zipIdx_map_fst]

-- An open that finds the table free gets all of it.
theorem irq_key_open_free (h : AllFree table errors s.lines) :
    irq_key_open table errors ⟨s.lines, []⟩ = (0, ⟨assign some table.zipIdx s.lines,
      table.zipIdx.map fun p ↦ .request p.1.irq p.2 0⟩) := by
  rw [irq_key_open, request_lines_granted h.distinct h.free]
  rfl

theorem irq_key_close_registered (h : AllRegistered table s.lines) :
    irq_key_close table ⟨s.lines, []⟩ = (0, ⟨assign (fun _ ↦ none) table.zipIdx s.lines,
      table.zipIdx.map fun p ↦ .free p.1.irq p.2 true⟩) := by
  rw [irq_key_close, free_lines_found h.distinct h.entry]
  rfl

-- The last request was refused.  If its line is freed all the same, it was registered before.
theorem rollback_takes {lines : Nat → Option Nat} {err : Int} {l' : Irqs}
    (hreq : request_lines errors table.zipIdx (0, ⟨lines, []⟩) = (err, l')) (herr : err ≠ 0)
    (hfound : ∀ irq dev_id found,
      .free irq dev_id found ∈ (free_lines table.zipIdx.reverse l').calls → found = true) :
    ∃ irq, (lines irq).isSome = true ∧ (free_lines table.zipIdx.reverse l').lines irq = none := by
  rcases List.eq_nil_or_concat table.zipIdx with hnil | ⟨cs, p, hcs⟩
  · rw [hnil] at hreq
    cases hreq
    exact absurd rfl herr
  · rw [List.concat_eq_append] at hcs
    rcases registered_of_found hfound p (by simp [hcs]) with ⟨hreg, hnone⟩
    refine ⟨p.1.irq, ?_, hnone⟩
    rw [hcs, request_lines_append, request_lines_cons, request_lines_nil] at hreq
    rcases request_irq_cases p.1.irq p.2 (errors p.2)
      (request_lines errors cs (0, ⟨lines, []⟩)).2 with ⟨_, _, hl⟩ | ⟨_, _, h0, _⟩
    · rw [hreq] at hl
      rw [hl] at hreg
      rcases registered_before _ hreg with hold | hmem
      · rw [show lines p.1.irq = some p.2 from hold]
        rfl
      · have hd := snd_zipIdx_nodup table
        rw [hcs, List.map_append, List.nodup_append] at hd
        exact absurd rfl (hd.2.2 _ hmem _ (by simp))
    · rw [hreq] at h0
      exact absurd h0 herr

end Calls

section Run

variable {table : List ButtonIrqDesc} {es : List Event} {e : Event} {s t : State}

/-- What holds as long as every open finds the table free. -/
structure Inv (table : List ButtonIrqDesc) (s : State) : Prop where
  registered : (∃ c, 0 < s.handles c) → AllRegistered table s.lines
  unregistered : (∀ c, s.handles c = 0) → ∀ irq, s.lines irq = none
  one : table ≠ [] → ∀ c, 0 < s.handles c → s.handles c = 1 ∧ ∀ c', 0 < s.handles c' → c' = c

theorem inv_init : Inv table State.init where
  registered := by
    rintro ⟨c, hc⟩
    exact absurd hc (Nat.lt_irrefl 0)
  unregistered _ _ := rfl
  one _ c hc := absurd hc (Nat.lt_irrefl 0)

theorem Inv.other_none (h : Inv table s) {irq : Nat} (hirq : irq ∉ table.map ButtonIrqDesc.irq) :
    s.lines irq = none := by
  by_cases hc : ∃ c, 0 < s.handles c
  · exact (h.registered hc).other irq hirq
  · exact h.unregistered (fun c ↦ Nat.eq_zero_of_not_pos fun hpos ↦ hc ⟨c, hpos⟩) irq

-- A table that is free and not empty is held by nobody.
theorem Inv.no_handle (h : Inv table s) (hne : table ≠ []) {errors : Nat → Int}
    (hfree : AllFree table errors s.lines) (c : Nat) : s.handles c = 0 := by
  by_contra hc
  have hreg := h.registered ⟨c, Nat.pos_of_ne_zero hc⟩
  rcases List.exists_mem_of_ne_nil table hne with ⟨b, hb⟩
  rcases mem_zipIdx_of_mem hb with ⟨i, hi⟩
  have hnone := (hfree.free _ hi).1
  rw [hreg.entry _ hi] at hnone
  cases hnone

theorem AllRegistered.isSome {lines : Nat → Option Nat} (h : AllRegistered table lines)
    {b : ButtonIrqDesc} (hb : b ∈ table) : (lines b.irq).isSome := by
  rcases mem_zipIdx_of_mem hb with ⟨i, hi⟩
  rw [h.entry _ hi]
  rfl

theorem open_step (h : Inv table s) {errors : Nat → Int} {ret : Int} {l : Irqs}
    (hfree : AllFree table errors s.lines)
    (ho : irq_key_open table errors ⟨s.lines, []⟩ = (ret, l)) :
    ret = 0 ∧ AllRegistered table l.lines ∧
      l.calls = table.zipIdx.map fun p ↦ .request p.1.irq p.2 0 := by
  rw [irq_key_open_free hfree, Prod.mk.injEq] at ho
  rcases ho with ⟨rfl, rfl⟩
  refine ⟨rfl, ⟨fun p hp ↦ assign_mem hfree.distinct hp, fun irq hirq ↦ ?_⟩, rfl⟩
  show assign some table.zipIdx s.lines irq = none
  rw [assign_of_notMem (by rwa [map_irq_zipIdx])]
  exact h.other_none hirq

theorem close_step (h : Inv table s) {c : Nat} (hc : 0 < s.handles c) {ret : Int} {l : Irqs}
    (hcl : irq_key_close table ⟨s.lines, []⟩ = (ret, l)) :
    (∀ irq, l.lines irq = none) ∧
      l.calls = table.zipIdx.map fun p ↦ .free p.1.irq p.2 true := by
  have hreg := h.registered ⟨c, hc⟩
  rw [irq_key_close_registered hreg, Prod.mk.injEq] at hcl
  rcases hcl with ⟨_, rfl⟩
  refine ⟨fun irq ↦ ?_, rfl⟩
  show assign (fun _ ↦ none) table.zipIdx s.lines irq = none
  by_cases hirq : irq ∈ table.zipIdx.map fun p ↦ p.1.irq
  · rcases List.mem_map.mp hirq with ⟨p, hp, rfl⟩
    exact assign_mem (f := fun _ ↦ none) hreg.distinct hp
  · rw [assign_of_notMem hirq]
    exact hreg.other irq (by rwa [map_irq_zipIdx] at hirq)

theorem inv_step (h : Inv table s) (hs : Step table s e t) (hg : OpensFree table es s e) :
    Inv table t := by
  cases hs with
  | openKey c errors ho =>
    have hfree := hg c errors _ _ rfl
    rcases open_step h hfree ho with ⟨rfl, hreg, _⟩
    refine ⟨fun _ ↦ hreg, fun h0 ↦ ?_, fun hne d hd ↦ ?_⟩
    · have hc := h0 c
      simp at hc
    · have h0 := h.no_handle hne hfree
      have hpos : ∀ d', 0 < Function.update s.handles c (s.handles c + 1) d' → d' = c := by
        intro d' hd'
        by_contra hdc
        rw [Function.update_of_ne hdc, h0 d'] at hd'
        exact Nat.lt_irrefl 0 hd'
      obtain rfl := hpos d hd
      exact ⟨by simp [h0 d], hpos⟩
  | @closeKey c _ _ hc hcl =>
    rcases close_step h hc hcl with ⟨hnone, _⟩
    have hleft : table ≠ [] → ∀ d, Function.update s.handles c (s.handles c - 1) d = 0 := by
      intro hne d
      by_cases hd : d = c
      · rw [hd, Function.update_self, (h.one hne c hc).1]
      · rw [Function.update_of_ne hd]
        by_contra hpos
        exact hd ((h.one hne c hc).2 d (Nat.pos_of_ne_zero hpos))
    refine ⟨fun hd ↦ ?_, fun _ ↦ hnone, fun hne d hd ↦ ?_⟩
    · rcases hd with ⟨d, hd⟩
      have hnil : table = [] := by
        by_contra hne
        exact Nat.ne_of_gt hd (hleft hne d)
      subst hnil
      exact ⟨by simp, fun irq _ ↦ hnone irq⟩
    · exact absurd (hleft hne d) (Nat.ne_of_gt hd)

theorem follow_step (h : Inv table s) (hs : Step table s e t) (hg : OpensFree table es s e) :
    LinesFollow table s e t := by
  have ht := inv_step h hs hg
  have hheld : (∃ c, 0 < t.handles c) → ∀ b ∈ table, (t.lines b.irq).isSome :=
    fun hc b hb ↦ (ht.registered hc).isSome hb
  cases hs with
  | openKey c errors ho =>
    rcases open_step h (hg c errors _ _ rfl) ho with ⟨rfl, _, hcalls⟩
    refine ⟨fun c errors calls he p hp ↦ ?_, fun c errors calls he ↦ ?_, fun irq dev_id found hf ↦ ?_,
      hheld⟩
    · cases he
      rw [hcalls]
      refine ⟨⟨0, List.mem_map.mpr ⟨p, hp, rfl⟩⟩, fun err herr ↦ ?_⟩
      rcases List.mem_map.mp herr with ⟨q, _, hq⟩
      rw [Call.request.injEq] at hq
      exact hq.2.2.symm
    · cases he
    · rw [Event.calls, hcalls] at hf
      rcases List.mem_map.mp hf with ⟨q, _, hq⟩
      cases hq
  | closeKey hc hcl =>
    rcases close_step h hc hcl with ⟨_, hcalls⟩
    refine ⟨fun c errors calls he ↦ (by cases he), fun c errors calls he ↦ (by cases he),
      fun irq dev_id found hf ↦ ?_, hheld⟩
    rw [Event.calls, hcalls] at hf
    rcases List.mem_map.mp hf with ⟨q, _, hq⟩
    rw [Call.free.injEq] at hq
    exact hq.2.2.symm

-- An open that does not find the table free goes wrong.
theorem free_of_follow (hs : Step table s e t) (hf : LinesFollow table s e t) :
    OpensFree table es s e := by
  rintro c errors ret calls rfl
  cases hs with
  | openKey _ _ ho =>
    unfold irq_key_open at ho
    split at ho
    next err l' hreq =>
      by_cases herr : err = 0
      · rw [if_neg (not_not.mpr herr), Prod.mk.injEq] at ho
        rcases ho with ⟨rfl, rfl⟩
        have hgr := hf.granted c errors _ rfl
        rw [show l' = (request_lines errors table.zipIdx (0, ⟨s.lines, []⟩)).2 by rw [hreq]] at hgr
        rcases free_of_granted _ fun p hp ↦ (hgr p hp).2 with ⟨hd, hfree⟩
        exact ⟨hd, hfree⟩
      · rw [if_pos herr, Prod.mk.injEq] at ho
        rcases ho with ⟨rfl, rfl⟩
        rcases rollback_takes hreq herr hf.found with ⟨irq, hold, hnone⟩
        have hsame : ((free_lines table.zipIdx.reverse l').lines irq).isSome =
            (s.lines irq).isSome := hf.unchanged c errors _ rfl irq
        rw [hnone, hold] at hsame
        cases hsame

/-- The lines follow the handles throughout exactly in the runs in which every open finds the whole
table free. -/
theorem linesFollow_iff : GuardedRun (Step table) (OpensFree table) State.init es s ↔
    RunWhere (Step table) (fun _ ↦ LinesFollow table) State.init es s := by
  apply RunWhere.iff_of_invariant (fun _ s ↦ Inv table s) inv_init
  · exact fun es s e t hi hs hg ↦ inv_step hi hs hg
  · exact fun es s e t hi hs ↦ ⟨fun hg ↦ follow_step hi hs hg, free_of_follow hs⟩

end Run

/-- The eight buttons on the interrupt lines 32 to 39: a second open fails and takes the lines of the
handle that is open. -/
theorem second_open_takes_lines :
    ∃ es s calls t,
      Run (Step (button_irqs (fun n ↦ 32 + n) (fun n ↦ n))) State.init es s ∧
      Step (button_irqs (fun n ↦ 32 + n) (fun n ↦ n)) s
        (.openKey 1 (fun _ ↦ 0) (-EBUSY) calls) t ∧
      s.lines 32 = some 0 ∧ t.handles 0 = 1 ∧ ∀ n < 8, t.lines (32 + n) = none := by
  let table := button_irqs (fun n ↦ 32 + n) (fun n ↦ n)
  let l₁ := (irq_key_open table (fun _ ↦ 0) ⟨fun _ ↦ none, []⟩).2
  let l₂ := (irq_key_open table (fun _ ↦ 0) ⟨l₁.lines, []⟩).2
  have ho₁ : irq_key_open table (fun _ ↦ 0) ⟨fun _ ↦ none, []⟩ = (0, l₁) := Prod.ext rfl rfl
  have hbusy : (irq_key_open table (fun _ ↦ 0) ⟨l₁.lines, []⟩).1 = -EBUSY := by decide +kernel
  have ho₂ : irq_key_open table (fun _ ↦ 0) ⟨l₁.lines, []⟩ = (-EBUSY, l₂) := by
    rw [← hbusy]
  have h₁ := Run.nil.snoc (Step.openKey (s := State.init) 0 (fun _ ↦ 0) ho₁)
  have h₂ := Step.openKey (s := ⟨l₁.lines, Function.update (fun _ ↦ 0) 0 1⟩) 1 (fun _ ↦ 0) ho₂
  exact ⟨_, _, _, _, h₁, h₂, rfl, rfl, by decide⟩

end OK210Drivers.Key.Lines
