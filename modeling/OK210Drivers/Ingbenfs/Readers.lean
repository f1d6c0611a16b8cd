import OK210Drivers.Ingbenfs.Counter
import OK210Drivers.Library.Runs

/-!
# Several readers of one counter file

A reader that takes the text in several pieces gets each piece from the counter as it is at that
time.  The pieces belong together as long as the counter is still one more than what the reader's
first piece was taken from.
-/

open Library

namespace OK210Drivers.Ingbenfs

/-- A pass of a client over the file since it was opened: the value of its latest read at the start of
the file, the bytes collected, the values that the counter has had so far, and whether a read has
returned 0. -/
structure Pass where
  value : BitVec 32
  bytes : List UInt8
  held : List (BitVec 32)
  ended : Bool

/-- A read of the client whose pass this is. -/
def Pass.read (p : Pass) (e : Event) : Pass where
  value := if p.bytes = [] then e.found else p.value
  bytes := p.bytes ++ e.out
  held := e.found :: p.held
  ended := p.ended || e.ret = 0

/-- What a call makes of the pass of client `c`; before the first read there is none. -/
def passStep (c : Nat) (p : Option Pass) (e : Event) : Option Pass :=
  match e.call with
  | .open_ => if e.client = c then none else p.map fun p ↦ { p with held := e.found :: p.held }
  | .read _ _ =>
    if e.client = c then some ((p.getD ⟨e.found, [], [], false⟩).read e)
    else p.map fun p ↦ { p with held := e.found :: p.held }
  | .write _ _ => p.map fun p ↦ { p with held := e.found :: p.held }

def passOf (c : Nat) (es : List Event) : Option Pass := es.foldl (passStep c) none

/-- The pass of client `c` is under way or has not begun. -/
def Going (c : Nat) (es : List Event) : Prop := ∀ p, passOf c es = some p → p.ended = false

/-- When a pass ends, the bytes collected are the text of one value that the counter held during the
pass. -/
def Consistent (es : List Event) (e : Event) (t : State) : Prop :=
  ∀ count left, e.call = .read count left → e.ret = 0 → Going e.client es →
    ∃ p, passOf e.client (es ++ [e]) = some p ∧
      ∃ v, (v ∈ p.held ∨ v = t.counter) ∧ p.bytes = format_d v

/-- A client that goes on reading finds the counter one more than what it read at the start, unless it
has all of the text and what the counter gives now is no longer.  No client asks for 0 bytes before it
has all of the text. -/
def Undisturbed (es : List Event) (s : State) (e : Event) : Prop :=
  ∀ count left, e.call = .read count left → Going e.client es →
    (s.offset e.client = 0 → 0 < count) ∧
    (0 < s.offset e.client → ∀ p, passOf e.client es = some p →
      (s.counter = p.value + 1 ∧ 0 < count) ∨
      (s.offset e.client = (format_d p.value).length ∧
        (format_d (s.counter - 1)).length ≤ s.offset e.client))

section Pass

variable {c : Nat} {es : List Event} {e : Event}

theorem passOf_snoc : passOf c (es ++ [e]) = passStep c (passOf c es) e := by
  unfold passOf
  rw [List.foldl_append]
  rfl

theorem passOf_other (hne : e.client ≠ c) : passOf c (es ++ [e]) =
    (passOf c es).map fun p ↦ { p with held := e.found :: p.held } := by
  rw [passOf_snoc]
  unfold passStep
  split
  · rw [if_neg hne]
  · rw [if_neg hne]
  · rfl

theorem passOf_read {count left : Nat} (hcall : e.call = .read count left) (hc : e.client = c) :
    passOf c (es ++ [e]) = some (((passOf c es).getD ⟨e.found, [], [], false⟩).read e) := by
  rw [passOf_snoc]
  unfold passStep
  rw [hcall]
  exact if_pos hc

end Pass

/-- What a pass has collected while it goes on. -/
structure Collected (offset : Nat) (p : Pass) : Prop where
  offset_eq : offset = p.bytes.length
  text : p.bytes <+: format_d p.value
  held : p.bytes ≠ [] → p.value ∈ p.held

/-- Every pass under way has a part of one text. -/
def Inv (es : List Event) (s : State) : Prop :=
  ∀ c, (passOf c es = none → s.offset c = 0) ∧
    ∀ p, passOf c es = some p → p.ended = false → Collected (s.offset c) p

section Run

variable {es : List Event} {e : Event} {s t : State} {counter : BitVec 32}

theorem inv_init : Inv [] ⟨counter, fun _ ↦ 0⟩ := by
  intro c
  exact ⟨fun _ ↦ rfl, fun p hp ↦ by cases hp⟩

-- A client whose file and pass a call leaves alone, but for the values of the counter.
theorem Collected.other {offset : Nat} {p : Pass} {v : BitVec 32} (h : Collected offset p) :
    Collected offset { p with held := v :: p.held } :=
  ⟨h.offset_eq, h.text, fun hne ↦ List.mem_cons_of_mem _ (h.held hne)⟩

-- A read by a client with a pass under way goes on with the text of the pass.
theorem Collected.shown {offset : Nat} {p : Pass} (h : Collected offset p)
    (hon : 0 < offset → counter = p.value + 1) (hfound : e.found = counter) :
    shownValue counter offset = (p.read e).value ∧ p.bytes <+: format_d (p.read e).value ∧
      (p.read e).value ∈ (p.read e).held := by
  unfold shownValue
  show _ = (if p.bytes = [] then e.found else p.value) ∧
    _ <+: format_d (if p.bytes = [] then e.found else p.value) ∧
    (if p.bytes = [] then e.found else p.value) ∈ e.found :: p.held
  have hoff := h.offset_eq
  by_cases hb : p.bytes = []
  · rw [hb, List.length_nil] at hoff
    rw [if_neg (by omega), if_pos hb, hb]
    exact ⟨hfound.symm, List.nil_prefix, List.mem_cons_self ..⟩
  · have hpos : 0 < offset := hoff ▸ List.length_pos_of_ne_nil hb
    rw [if_pos hpos, if_neg hb, hon hpos, BitVec.add_sub_cancel]
    exact ⟨rfl, h.text, List.mem_cons_of_mem _ (h.held hb)⟩

theorem Collected.read {offset count left : Nat} {p : Pass} (h : Collected offset p)
    (hstart : offset = 0 → 0 < count)
    (hon : 0 < offset → counter = p.value + 1 ∧ 0 < count)
    (hfound : e.found = counter)
    (hout : e.out = (ingbenfs_read_file counter offset count left).out)
    (hret : e.ret = (ingbenfs_read_file counter offset count left).ret) :
    Collected (ingbenfs_read_file counter offset count left).offset (p.read e) ∧
      (e.ret = 0 → (p.read e).bytes = format_d (p.read e).value) := by
  rcases h.shown (fun hpos ↦ (hon hpos).1) hfound with ⟨hval, htext, hheld⟩
  have hle : offset ≤ (format_d (p.read e).value).length := h.offset_eq ▸ htext.length_le
  have hspec := @ingbenfs_read_file_inside counter offset count left (by rwa [hval])
  simp only [hval] at hspec
  rw [hspec] at hout hret ⊢
  have htake : p.bytes = (format_d (p.read e).value).take offset := by
    rw [h.offset_eq]
    exact List.prefix_iff_eq_take.mp htext
  by_cases hleft : left ≠ 0
  · rw [if_pos hleft] at hout hret ⊢
    have hbytes : (p.read e).bytes = p.bytes := by
      show p.bytes ++ e.out = p.bytes
      rw [hout, List.append_nil]
    refine ⟨⟨hbytes ▸ h.offset_eq, hbytes ▸ htext, fun _ ↦ hheld⟩, fun h0 ↦ ?_⟩
    rw [hret] at h0
    cases h0
  · rw [if_neg hleft] at hout hret ⊢
    have hbytes : (p.read e).bytes = (format_d (p.read e).value).take
        (offset + min count ((format_d (p.read e).value).length - offset)) := by
      show p.bytes ++ e.out = _
      rw [hout, htake, List.take_add]
    refine ⟨⟨?_, hbytes ▸ List.take_prefix .., fun _ ↦ hheld⟩, fun h0 ↦ ?_⟩
    · rw [hbytes, List.length_take]
      show offset + min count _ = _
      omega
    · rw [hret] at h0
      have hmin : min count ((format_d (p.read e).value).length - offset) = 0 := Int.ofNat_inj.mp h0
      have hcount : 0 < count := (Nat.eq_zero_or_pos offset).elim hstart fun hpos ↦ (hon hpos).2
      have hend : (format_d (p.read e).value).length ≤ offset := by omega
      rw [hbytes, List.take_of_length_le (by omega)]

-- A read by a client that has all of the text.
theorem Collected.read_end {offset : Nat} {p : Pass} (h : Collected offset p) (hpos : 0 < offset)
    (hend : offset = (format_d p.value).length) (hout : e.out = []) :
    Collected offset (p.read e) ∧ (p.read e).bytes = format_d (p.read e).value := by
  have hne : p.bytes ≠ [] := List.ne_nil_of_length_pos (h.offset_eq ▸ hpos)
  have hall : p.bytes = format_d p.value := h.text.eq_of_length (h.offset_eq.symm.trans hend)
  have hbytes : (p.read e).bytes = p.bytes := by
    show p.bytes ++ e.out = p.bytes
    rw [hout, List.append_nil]
  have hvalue : (p.read e).value = p.value := if_neg hne
  rw [hbytes, hvalue]
  refine ⟨⟨?_, ?_, fun _ ↦ ?_⟩, hall⟩
  · rw [hbytes]
    exact h.offset_eq
  · rw [hbytes, hvalue]
    exact h.text
  · rw [hvalue]
    exact List.mem_cons_of_mem _ (h.held hne)

-- A client that begins a pass.
theorem collected_fresh {v : BitVec 32} : Collected 0 ⟨v, [], [], false⟩ :=
  ⟨rfl, List.nil_prefix, fun h ↦ absurd rfl h⟩

-- The pass that a read goes on with.
theorem Inv.current (h : Inv es s) (c : Nat) (hgoing : Going c es) {v : BitVec 32} :
    Collected (s.offset c) ((passOf c es).getD ⟨v, [], [], false⟩) := by
  cases hp : passOf c es with
  | none =>
    rw [(h c).1 hp]
    exact collected_fresh
  | some p => exact (h c).2 p hp (hgoing p hp)

-- A client that does not make the call.
theorem Inv.other (h : Inv es s) {c : Nat} {offset : Nat}
    (hpass : passOf c (es ++ [e]) = (passOf c es).map fun p ↦ { p with held := e.found :: p.held })
    (hoff : offset = s.offset c) :
    (passOf c (es ++ [e]) = none → offset = 0) ∧
      ∀ p, passOf c (es ++ [e]) = some p → p.ended = false → Collected offset p := by
  rw [hpass, hoff]
  refine ⟨fun hn ↦ (h c).1 (Option.map_eq_none_iff.mp hn), fun p hp hend ↦ ?_⟩
  rcases Option.map_eq_some_iff.mp hp with ⟨q, hq, rfl⟩
  exact ((h c).2 q hq hend).other

-- The read of a guarded run, for the client that makes it.
theorem read_step (h : Inv es s) {c count left : Nat} {r : ReadResult}
    (hr : ingbenfs_read_file s.counter (s.offset c) count left = r)
    (hg : Undisturbed es s ⟨c, .read count left, s.counter, r.ret, r.out⟩) (hgoing : Going c es) :
    let e : Event := ⟨c, .read count left, s.counter, r.ret, r.out⟩
    let p := ((passOf c es).getD ⟨e.found, [], [], false⟩).read e
    Collected r.offset p ∧ (e.ret = 0 → p.bytes = format_d p.value) := by
  intro e p
  subst hr
  rcases hg count left rfl hgoing with ⟨hstart, hon⟩
  have hcurrent : Collected (s.offset c) ((passOf c es).getD ⟨s.counter, [], [], false⟩) :=
    h.current c hgoing
  rcases Nat.eq_zero_or_pos (s.offset c) with hzero | hpos
  · exact hcurrent.read hstart (fun hpos ↦ absurd hzero (Nat.ne_of_gt hpos)) rfl rfl rfl
  · cases hp : passOf c es with
    | none => exact absurd ((h c).1 hp) (Nat.ne_of_gt hpos)
    | some q =>
      have hq : p = q.read e := by
        show ((passOf c es).getD _).read e = _
        rw [hp]
        rfl
      rw [hp] at hcurrent
      rw [hq]
      rcases hon hpos q hp with hsame | ⟨hend, hlen⟩
      · exact hcurrent.read hstart (fun _ ↦ hsame) rfl rfl rfl
      · rcases @ingbenfs_read_file_behind s.counter (s.offset c) count left hpos hlen with ⟨hout, hoff⟩
        rw [hoff]
        exact ⟨(hcurrent.read_end hpos hend hout).1, fun _ ↦ (hcurrent.read_end hpos hend hout).2⟩

theorem inv_step (h : Inv es s) (hs : Step s e t) (hg : Undisturbed es s e) :
    Inv (es ++ [e]) t := by
  intro c
  cases hs with
  | open_ d =>
    by_cases hdc : d = c
    · subst hdc
      have hnone : passOf d (es ++ [⟨d, .open_, s.counter, 0, []⟩]) = none := by
        rw [passOf_snoc]
        exact if_pos rfl
      rw [hnone]
      exact ⟨fun _ ↦ Function.update_self .., fun p hp ↦ (by cases hp)⟩
    · exact h.other (passOf_other hdc) (Function.update_of_ne (Ne.symm hdc) ..)
  | write d buf left hw => exact h.other passOf_snoc rfl
  | @read r d count left hr =>
    by_cases hdc : d = c
    · subst hdc
      have hpass := @passOf_read d es ⟨d, .read count left, s.counter, r.ret, r.out⟩ count left rfl rfl
      rw [hpass]
      refine ⟨fun hn ↦ (by cases hn), fun p hp hend ↦ ?_⟩
      obtain rfl := Option.some.inj hp
      have hgoing : Going d es := by
        intro q hq
        rw [hq] at hend
        exact (Bool.or_eq_false_iff.mp hend).1
      show Collected (Function.update s.offset d r.offset d) _
      rw [Function.update_self]
      exact (read_step h hr hg hgoing).1
    · exact h.other (passOf_other hdc) (Function.update_of_ne (Ne.symm hdc) ..)

theorem consistent_step (h : Inv es s) (hs : Step s e t) (hg : Undisturbed es s e) :
    Consistent es e t := by
  intro count left hcall hret hgoing
  cases hs with
  | open_ => cases hcall
  | write => cases hcall
  | @read r c count left hr =>
    rcases read_step h hr hg hgoing with ⟨hcoll, htext⟩
    have hbytes := htext hret
    refine ⟨_, passOf_read rfl rfl, _, Or.inl (hcoll.held ?_), hbytes⟩
    rw [hbytes]
    exact List.ne_nil_of_length_pos (format_d_pos _)

/-- In a run without disturbed passes every client gets the text of one value that the counter held
while it was reading. -/
theorem passes_consistent (h : GuardedRun Step Undisturbed ⟨counter, fun _ ↦ 0⟩ es s) :
    RunWhere Step (fun es _ e t ↦ Consistent es e t) ⟨counter, fun _ ↦ 0⟩ es s :=
  h.imp_of_invariant Inv inv_init (fun _ _ _ _ hi hs hg ↦ inv_step hi hs hg)
    fun _ _ _ _ hi hs hg ↦ consistent_step hi hs hg

end Run

-- A client reads "0\n" byte by byte while another one opens the file, and reads all of "1\n" before the
-- first one finds the end.
theorem passes_consistent_bytewise :
    ∃ es s, GuardedRun Step Undisturbed ⟨0, fun _ ↦ 0⟩ es s ∧
      passOf 0 es = some ⟨0, [48, 10], [2, 1, 1, 1, 0], true⟩ ∧
      RunWhere Step (fun es _ e t ↦ Consistent es e t) ⟨0, fun _ ↦ 0⟩ es s := by
  have hr₁ : ingbenfs_read_file 0 0 1 0 = ⟨1, [48], 1, 1⟩ := by decide
  have hr₃ : ingbenfs_read_file 1 1 1 0 = ⟨1, [10], 1, 2⟩ := by decide
  have hr₄ : ingbenfs_read_file 1 0 20 0 = ⟨2, [49, 10], 2, 2⟩ := by decide
  have hr₅ : ingbenfs_read_file 2 2 1 0 = ⟨0, [], 2, 2⟩ := by decide
  have h₁ : GuardedRun Step Undisturbed ⟨0, fun _ ↦ 0⟩ _ _ := .snoc .nil (.read 0 1 0 hr₁) (by
    intro count left hcall _
    cases hcall
    exact ⟨by decide, fun hpos ↦ absurd hpos (by decide)⟩)
  have h₂ := RunWhere.snoc h₁ (.open_ 1) (by
    intro count left hcall
    cases hcall)
  have h₃ := RunWhere.snoc h₂ (.read 0 1 0 hr₃) (by
    intro count left hcall _
    cases hcall
    exact ⟨by decide, fun _ p hp ↦ by cases hp; decide⟩)
  have h₄ := RunWhere.snoc h₃ (.read 1 20 0 hr₄) (by
    intro count left hcall _
    cases hcall
    exact ⟨by decide, fun hpos ↦ absurd hpos (by decide)⟩)
  have h₅ := RunWhere.snoc h₄ (.read 0 1 0 hr₅) (by
    intro count left hcall _
    cases hcall
    exact ⟨by decide, fun _ p hp ↦ by cases hp; decide⟩)
  exact ⟨_, _, h₅, rfl, passes_consistent h₅⟩

/-- Client 0 takes "9" of "9\n", client 1 counts up, and client 0 goes on with the end of "10\n": it
collects "90\n", while the counter was 9, 10 and 11. -/
theorem text_of_two_values :
    ∃ es s e t p, Run Step ⟨9, fun _ ↦ 0⟩ es s ∧ Step s e t ∧ ¬Consistent es e t ∧
      e.client = 0 ∧ passOf 0 (es ++ [e]) = some p ∧ p.bytes = [57, 48, 10] ∧
      p.held = [11, 11, 10, 9] ∧ t.counter = 11 := by
  have hr₁ : ingbenfs_read_file 9 0 1 0 = ⟨1, [57], 10, 1⟩ := by decide
  have hr₂ : ingbenfs_read_file 10 0 20 0 = ⟨3, [49, 48, 10], 11, 3⟩ := by decide
  have hr₃ : ingbenfs_read_file 11 1 10 0 = ⟨2, [48, 10], 11, 3⟩ := by decide
  have hr₄ : ingbenfs_read_file 11 3 10 0 = ⟨0, [], 11, 3⟩ := by decide
  have h₁ : Run Step ⟨9, fun _ ↦ 0⟩ _ _ := .snoc .nil (.read 0 1 0 hr₁)
  have h₂ := h₁.snoc (.read 1 20 0 hr₂)
  have h₃ := h₂.snoc (.read 0 10 0 hr₃)
  refine ⟨_, _, _, _, ⟨9, [57, 48, 10], [11, 11, 10, 9], true⟩, h₃, .read 0 10 0 hr₄, fun hc ↦ ?_,
    rfl, rfl, rfl, rfl, rfl⟩
  rcases hc 10 0 rfl rfl (by intro p hp; cases hp; rfl) with ⟨p, hp, v, hv, hbytes⟩
  cases hp
  have h9 : [57, 48, 10] ≠ format_d 9 := by decide
  have h10 : [57, 48, 10] ≠ format_d 10 := by decide
  have h11 : [57, 48, 10] ≠ format_d 11 := by decide
  have hv : v = 11 ∨ v = 10 ∨ v = 9 := by
    rcases hv with hv | rfl
    · have hheld : v ∈ ([11, 11, 10, 9] : List (BitVec 32)) := hv
      simpa using hheld
    · exact Or.inl rfl
  rcases hv with rfl | rfl | rfl
  · exact h11 hbytes
  · exact h10 hbytes
  · exact h9 hbytes

end OK210Drivers.Ingbenfs
