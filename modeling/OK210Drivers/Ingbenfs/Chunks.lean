import OK210Drivers.Ingbenfs.Counter
import OK210Drivers.Library.Runs

/-!
# One reader with the file to itself

However a single client splits its reads, it collects the one text that the counter stood for at its
first read, and the counter counts up once.
-/

open Library

namespace OK210Drivers.Ingbenfs

/-- A read of at least one byte by client `c` whose copy succeeds. -/
def ReadsOn (c : Nat) (e : Event) : Prop := e.client = c ∧ ∃ count, 0 < count ∧ e.call = .read count 0

/-- The bytes delivered by the calls, in their order. -/
def delivered (es : List Event) : List UInt8 := es.flatMap Event.out

/-- What client `c` has taken of the text of `v`, having found the counter at `v`. -/
structure ReadThrough (c : Nat) (v : BitVec 32) (es : List Event) (s : State) : Prop where
  inside : s.offset c ≤ (format_d v).length
  bytes : delivered es = (format_d v).take (s.offset c)
  begun : s.offset c = 0 ↔ es = []
  counter : s.counter = if es = [] then v else v + 1
  ended : (∃ e ∈ es, e.ret = 0) → s.offset c = (format_d v).length

section Run

variable {c count : Nat} {v : BitVec 32} {es : List Event} {e : Event} {s₀ s t : State}

theorem delivered_snoc : delivered (es ++ [e]) = delivered es ++ e.out := by
  unfold delivered
  rw [List.flatMap_append, List.flatMap_singleton]

theorem readThrough_nil (hstart : s.offset c = 0) : ReadThrough c s.counter [] s where
  inside := by omega
  bytes := by rw [hstart, List.take_zero]; rfl
  begun := by simp [hstart]
  counter := (if_pos rfl).symm
  ended := by simp

-- A later read takes away what the first one has added.
theorem ReadThrough.shown (h : ReadThrough c v es s) : shownValue s.counter (s.offset c) = v := by
  unfold shownValue
  rw [h.counter]
  by_cases hes : es = []
  · rw [if_neg (by have := h.begun.mpr hes; omega), if_pos hes]
  · have hpos : s.offset c ≠ 0 := fun h0 ↦ hes (h.begun.mp h0)
    rw [if_pos (by omega), if_neg hes, BitVec.add_sub_cancel]

/-- What the next read does, by where the client is in the text. -/
theorem ReadThrough.read_eq (h : ReadThrough c v es s) :
    let n := min count ((format_d v).length - s.offset c)
    ingbenfs_read_file s.counter (s.offset c) count 0 =
      ⟨n, ((format_d v).drop (s.offset c)).take n, v + 1, s.offset c + n⟩ := by
  intro n
  have hspec := @ingbenfs_read_file_inside s.counter (s.offset c) count 0
    (by rw [h.shown]; exact h.inside)
  simp only [h.shown] at hspec
  rw [hspec, if_neg (by omega), h.counter]
  by_cases hes : es = []
  · rw [if_neg (by have := h.begun.mpr hes; omega), if_pos hes]
  · have hpos : s.offset c ≠ 0 := fun h0 ↦ hes (h.begun.mp h0)
    rw [if_pos (by omega), if_neg hes]

theorem ReadThrough.step (h : ReadThrough c v es s) (hs : Step s e t) (he : ReadsOn c e) :
    ReadThrough c v (es ++ [e]) t := by
  obtain ⟨hc, count, hcount, hcall⟩ := he
  cases hs with
  | open_ => cases hcall
  | write => cases hcall
  | @read r d count' left hr =>
    cases hcall
    have hdc : d = c := hc
    subst hdc
    obtain ⟨n, hn⟩ : ∃ n, n = min count ((format_d v).length - s.offset d) := ⟨_, rfl⟩
    have hlen := format_d_pos v
    have hin := h.inside
    have hne : ∀ f : Event, es ++ [f] ≠ [] := fun f ↦ List.concat_ne_nil f es
    have hread := @ReadThrough.read_eq d count v es s h
    rw [← hn, hr] at hread
    subst hread
    have hoff : Function.update s.offset d (s.offset d + n) d = s.offset d + n :=
      Function.update_self ..
    constructor
    case inside =>
      show Function.update s.offset d (s.offset d + n) d ≤ _
      omega
    case bytes =>
      show _ = List.take (Function.update s.offset d (s.offset d + n) d) _
      rw [hoff, delivered_snoc, h.bytes, ← List.take_add]
    case begun =>
      show Function.update s.offset d (s.offset d + n) d = 0 ↔ _
      exact iff_of_false (by omega) (hne _)
    case counter => exact (if_neg (hne _)).symm
    case ended =>
      rintro ⟨f, hf, hret⟩
      show Function.update s.offset d (s.offset d + n) d = _
      rcases List.mem_append.mp hf with hf | hf
      · have hend := h.ended ⟨f, hf, hret⟩
        omega
      · rw [List.mem_singleton.mp hf] at hret
        have hzero : n = 0 := Int.ofNat_inj.mp hret
        omega

theorem readThrough_run (hrun : Run Step s₀ es s) (hstart : s₀.offset c = 0)
    (hreads : ∀ e ∈ es, ReadsOn c e) : ReadThrough c s₀.counter es s := by
  induction hrun with
  | nil => exact readThrough_nil hstart
  | snoc _ hs ih =>
    have hes := ih fun e he ↦ hreads e (List.mem_append_left _ he)
    exact hes.step hs (hreads _ (List.mem_append_right _ (List.mem_singleton_self _)))

/-- The pieces make up the text of the counter as the first read finds it; the counter counts up once,
the offset is what has been delivered, and the next piece lies inside what `snprintf` leaves in `tmp`. -/
theorem chunks_invisible (hrun : Run Step s₀ es s) (hstart : s₀.offset c = 0)
    (hreads : ∀ e ∈ es, ReadsOn c e) :
    delivered es <+: format_d s₀.counter ∧
    ((∃ e ∈ es, e.ret = 0) → delivered es = format_d s₀.counter) ∧
    s.counter = (if es = [] then s₀.counter else s₀.counter + 1) ∧
    s.offset c = (delivered es).length ∧
    ∀ count, 0 < count →
      let tmp := (snprintf TMPSIZE (format_d (shownValue s.counter (s.offset c)))).1
      ∃ n : Nat, (ingbenfs_read_file s.counter (s.offset c) count 0).ret = n ∧
        (ingbenfs_read_file s.counter (s.offset c) count 0).out = (tmp.drop (s.offset c)).take n ∧
        s.offset c + n ≤ tmp.length ∧ tmp.length < TMPSIZE := by
  have h := readThrough_run hrun hstart hreads
  have hin := h.inside
  refine ⟨?_, ?_, h.counter, ?_, ?_⟩
  · rw [h.bytes]
    exact List.take_prefix ..
  · intro hend
    rw [h.bytes, h.ended hend, List.take_length]
  · rw [h.bytes, List.length_take]
    omega
  · intro count _ tmp
    have htmp : tmp = format_d s₀.counter := by
      show (snprintf TMPSIZE (format_d (shownValue s.counter (s.offset c)))).1 = _
      rw [h.shown, snprintf_format_d]
    have hlen := format_d_length_le s₀.counter
    refine ⟨min count ((format_d s₀.counter).length - s.offset c), ?_, ?_, ?_, ?_⟩
    · rw [h.read_eq]
    · rw [h.read_eq, htmp]
    · rw [htmp]
      omega
    · rw [htmp]
      show _ < 20
      omega

end Run

-- "-1\n" in pieces of one and of five bytes, while the counter goes from -1 to 0.
theorem chunks_invisible_minus_one :
    ∃ es s, Run Step ⟨-1, fun _ ↦ 0⟩ es s ∧ es.length = 3 ∧ delivered es = [45, 49, 10] ∧
      delivered es = format_d (-1) ∧ s.counter = 0 := by
  have hr₁ : ingbenfs_read_file (-1) 0 1 0 = ⟨1, [45], 0, 1⟩ := by decide
  have hr₂ : ingbenfs_read_file 0 1 5 0 = ⟨2, [49, 10], 0, 3⟩ := by decide
  have hr₃ : ingbenfs_read_file 0 3 1 0 = ⟨0, [], 0, 3⟩ := by decide
  have h₁ : Run Step ⟨-1, fun _ ↦ 0⟩ _ _ := .snoc .nil (.read 0 1 0 hr₁)
  have h₂ := h₁.snoc (.read 0 5 0 hr₂)
  have h₃ := h₂.snoc (.read 0 1 0 hr₃)
  have hreads : ∀ e ∈ [(⟨0, .read 1 0, -1, 1, [45]⟩ : Event), ⟨0, .read 5 0, 0, 2, [49, 10]⟩,
      ⟨0, .read 1 0, 0, 0, []⟩], ReadsOn 0 e := by
    intro e he
    simp only [List.mem_cons, List.not_mem_nil, or_false] at he
    rcases he with rfl | rfl | rfl
    · exact ⟨rfl, 1, by decide, rfl⟩
    · exact ⟨rfl, 5, by decide, rfl⟩
    · exact ⟨rfl, 1, by decide, rfl⟩
  have hall := chunks_invisible h₃ rfl hreads
  refine ⟨_, _, h₃, rfl, rfl, hall.2.1 ⟨_, List.mem_append_right _ (List.mem_singleton_self _), rfl⟩, ?_⟩
  exact hall.2.2.1

end OK210Drivers.Ingbenfs
