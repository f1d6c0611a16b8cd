import Mathlib.Data.List.TakeWhile
import OK210Drivers.Touch.Driver

/-!
# The calibration written to `/proc/driver/micc_ts`

`ts_proc_write` reads numbers from a copy of the text on its stack.  Its loop makes one turn for each byte
of the text, but `simple_strtol` moves the cursor over a number as well, so that the cursor is as far
ahead of the loop as the numbers are long.
-/

namespace OK210Drivers.Touch

-- `sizeof(buf)`.
def BUF_SIZE : Nat := 256

abbrev Pointercal := Fin 7 → BitVec 32

def isdigit (c : UInt8) : Bool := 48 ≤ c ∧ c ≤ 57

def separates (c : UInt8) : Bool := c = 32 ∨ c = 9

-- `simple_strtoul(cp, endp, 10)`: the value and what `endp` points to.  A pointer is the memory from it
-- on; there is no result when a character behind the end of the memory is examined.
def strtoul_loop (result : BitVec 32) : List UInt8 → Option (BitVec 32 × List UInt8)
  | [] => none
  | c :: cp =>
    if isdigit c then strtoul_loop (result * 10 + BitVec.ofNat 32 (c.toNat - 48)) cp
    else some (result, c :: cp)

def simple_strtol : List UInt8 → Option (BitVec 32 × List UInt8)
  | [] => none
  | c :: cp =>
    if c = 45 then (strtoul_loop 0 cp).map fun r ↦ (-r.1, r.2) else strtoul_loop 0 (c :: cp)

-- `pointercal[j] = v`, which has no result outside of the array.
def store (pointercal : Pointercal) (j : Nat) (v : BitVec 32) : Option Pointercal :=
  if h : j < 7 then some (Function.update pointercal ⟨j, h⟩ v) else none

-- The end of a turn: `p[0]` sets the flag for the next one.
def advance (next : Bool → List UInt8 → Option Pointercal) : List UInt8 → Option Pointercal
  | [] => none
  | c :: p => next (separates c) p

-- The loop, with the number of turns left.
def write_loop : Nat → Bool → Nat → List UInt8 → Pointercal → Option Pointercal
  | 0, _, _, _, pointercal => some pointercal
  | i + 1, true, j, p, pointercal => do
    let r ← simple_strtol p
    let pointercal ← store pointercal j r.1
    if j + 1 ≥ 7 then some pointercal
    else advance (fun flag p ↦ write_loop i flag (j + 1) p pointercal) r.2
  | i + 1, false, j, p, pointercal =>
    advance (fun flag p ↦ write_loop i flag j p pointercal) p

/-- `ts_proc_write(file, buffer, count, data)` with the `count` bytes of `buffer`, the memory behind
`buf`, and the result of `copy_from_user`. -/
def ts_proc_write (behind buffer : List UInt8) (left : Nat) (pointercal : Pointercal) :
    Option (Nat × Pointercal) :=
  let len := min (BUF_SIZE - 1) buffer.length
  let buf := buffer.take len ++ List.replicate (BUF_SIZE - len) 0
  if left ≠ 0 then some (buffer.length, pointercal)
  else (write_loop len true 0 (buf ++ behind) pointercal).map fun pointercal ↦
    (buffer.length, pointercal)

/-! ## What is written -/

/-- The bytes that are copied. -/
def copied (buffer : List UInt8) : List UInt8 := buffer.take (BUF_SIZE - 1)

/-- The pieces of a text between spaces and tabs. -/
def fields (text : List UInt8) : List (List UInt8) := text.splitOnP separates

/-- The number at the start of a field, with its sign. -/
def numeral : List UInt8 → List UInt8
  | [] => []
  | c :: ds => if c = 45 then c :: ds.takeWhile isdigit else (c :: ds).takeWhile isdigit

/-- How far the cursor is ahead of the loop after the fields of a text. -/
def ahead (fs : List (List UInt8)) : Nat := (fs.map fun f ↦ (numeral f).length).sum

/-- The copy fails, the parser stops at the seventh number, or the text and its numbers together are no
longer than the buffer. -/
def StaysInside (buffer : List UInt8) (left : Nat) : Prop :=
  left ≠ 0 ∨ 7 ≤ (fields (copied buffer)).length ∨
    (copied buffer).length + ahead (fields (copied buffer)) ≤ BUF_SIZE

section Fields

variable {c : UInt8} {t ds : List UInt8}

theorem fields_sep (h : separates c = true) : fields (c :: t) = [] :: fields t := by
  unfold fields
  rw [List.splitOnP_cons_eq_if_modifyHead, if_pos h]

theorem fields_cons (h : separates c = false) :
    fields (c :: t) = (fields t).modifyHead (List.cons c) := by
  unfold fields
  rw [List.splitOnP_cons_eq_if_modifyHead, if_neg (by simp [h])]

theorem tail_fields_cons (h : separates c = false) : (fields (c :: t)).tail = (fields t).tail := by
  rw [fields_cons h, List.tail_modifyHead]

theorem tail_fields_append (h : ∀ c ∈ ds, separates c = false) :
    (fields (ds ++ t)).tail = (fields t).tail := by
  induction ds with
  | nil => rfl
  | cons d ds ih =>
    rw [List.forall_mem_cons] at h
    rw [List.cons_append, tail_fields_cons h.1]
    exact ih h.2

theorem separates_of_isdigit (h : isdigit c = true) : separates c = false := by
  revert h
  unfold isdigit separates
  simp only [decide_eq_true_eq, decide_eq_false_iff_not, UInt8.le_iff_toNat_le, ← UInt8.toNat_inj]
  show 48 ≤ c.toNat ∧ c.toNat ≤ 57 → ¬(c.toNat = 32 ∨ c.toNat = 9)
  omega

theorem not_isdigit_of_separates (h : separates c = true) : isdigit c = false := by
  by_contra hd
  rw [separates_of_isdigit (by simpa using hd)] at h
  cases h

-- The first field of a text has the digits that the text starts with.
theorem fields_eq (t : List UInt8) :
    ∃ f, fields t = f :: (fields t).tail ∧ f.takeWhile isdigit = t.takeWhile isdigit := by
  induction t with
  | nil => exact ⟨[], rfl, rfl⟩
  | cons c t ih =>
    cases hc : separates c with
    | true =>
      refine ⟨[], ?_, ?_⟩
      · rw [fields_sep hc, List.tail_cons]
      · rw [List.takeWhile_cons_of_neg (by simp [not_isdigit_of_separates hc]), List.takeWhile_nil]
    | false =>
      rcases ih with ⟨f, hf, hdigits⟩
      refine ⟨c :: f, ?_, ?_⟩
      · rw [tail_fields_cons hc, fields_cons hc, hf, List.modifyHead_cons, List.tail_cons]
      · rw [List.takeWhile_cons, List.takeWhile_cons, hdigits]

-- And its number.
theorem fields_eq_numeral (t : List UInt8) :
    ∃ f, fields t = f :: (fields t).tail ∧ numeral f = numeral t := by
  cases t with
  | nil => exact ⟨[], rfl, rfl⟩
  | cons c t =>
    cases hc : separates c with
    | true =>
      have h45 : c ≠ 45 := by
        rintro rfl
        cases hc
      refine ⟨[], ?_, ?_⟩
      · rw [fields_sep hc, List.tail_cons]
      · rw [numeral, numeral, if_neg h45,
          List.takeWhile_cons_of_neg (by simp [not_isdigit_of_separates hc])]
    | false =>
      rcases fields_eq t with ⟨f, hf, hdigits⟩
      refine ⟨c :: f, ?_, ?_⟩
      · rw [tail_fields_cons hc, fields_cons hc, hf, List.modifyHead_cons, List.tail_cons]
      · rw [numeral, numeral, List.takeWhile_cons, List.takeWhile_cons, hdigits]

theorem length_fields (t : List UInt8) : (fields t).length = (fields t).tail.length + 1 := by
  obtain ⟨f, hf, _⟩ := fields_eq t
  rw [hf]
  rfl

theorem ahead_fields (t : List UInt8) :
    ahead (fields t) = (numeral t).length + ahead (fields t).tail := by
  obtain ⟨f, hf, hn⟩ := fields_eq_numeral t
  rw [hf, List.tail_cons, ← hn]
  rfl

theorem separates_of_mem_numeral (h : c ∈ numeral t) : separates c = false := by
  cases t with
  | nil => cases h
  | cons d t =>
    rw [numeral] at h
    by_cases hd : d = 45
    · rw [if_pos hd] at h
      rcases List.mem_cons.mp h with rfl | h
      · rw [hd]
        rfl
      · exact separates_of_isdigit (List.mem_takeWhile_imp h)
    · rw [if_neg hd] at h
      exact separates_of_isdigit (List.mem_takeWhile_imp h)

end Fields

/-! ## Where the cursor goes -/

section Cursor

variable {c : UInt8} {t behind : List UInt8} {i j z : Nat} {flag : Bool} {a : Pointercal}

-- The text that is left, and the `z` null characters behind it.
def padded (t : List UInt8) (z : Nat) : List UInt8 := t ++ List.replicate z 0

theorem strtoul_loop_padded (hz : 0 < z) (t : List UInt8) (result : BitVec 32) :
    ∃ v, strtoul_loop result (padded t z) = some (v, padded (t.dropWhile isdigit) z) := by
  induction t generalizing result with
  | nil =>
    obtain ⟨z, rfl⟩ : ∃ z', z = z' + 1 := ⟨z - 1, by omega⟩
    exact ⟨result, rfl⟩
  | cons c t ih =>
    show ∃ v, strtoul_loop result (c :: padded t z) = _
    rw [strtoul_loop, List.dropWhile_cons]
    by_cases hc : isdigit c = true
    · rw [if_pos hc, if_pos hc]
      exact ih _
    · rw [if_neg hc, if_neg hc]
      exact ⟨result, rfl⟩

/-- A number is read to its end, and the character there. -/
theorem simple_strtol_padded (hz : 0 < z) (t : List UInt8) :
    ∃ v t', simple_strtol (padded t z) = some (v, padded t' z) ∧ t = numeral t ++ t' := by
  cases t with
  | nil =>
    obtain ⟨z, rfl⟩ : ∃ z', z = z' + 1 := ⟨z - 1, by omega⟩
    exact ⟨0, [], rfl, rfl⟩
  | cons c t =>
    show ∃ v t', simple_strtol (c :: padded t z) = _ ∧ _
    rw [simple_strtol, numeral]
    by_cases hc : c = 45
    · obtain ⟨v, hv⟩ := strtoul_loop_padded hz t 0
      rw [if_pos hc, if_pos hc, hv]
      exact ⟨-v, t.dropWhile isdigit, rfl, by simp⟩
    · obtain ⟨v, hv⟩ := strtoul_loop_padded hz (c :: t) 0
      rw [if_neg hc, if_neg hc]
      exact ⟨v, (c :: t).dropWhile isdigit, hv, List.takeWhile_append_dropWhile.symm⟩

theorem store_isSome (hj : j < 7) (v : BitVec 32) : ∃ a', store a j v = some a' := by
  unfold store
  rw [dif_pos hj]
  exact ⟨_, rfl⟩

-- Behind the text the cursor makes one step in each turn.
theorem write_loop_zeros : (write_loop i false j (padded [] z) a).isSome ↔ i ≤ z := by
  induction i generalizing z with
  | zero => simp [write_loop]
  | succ i ih =>
    cases z with
    | zero => simp [write_loop, padded, advance]
    | succ z =>
      show (write_loop i false j (padded [] z) a).isSome ↔ _
      rw [ih]
      omega

theorem write_loop_cons :
    write_loop (i + 1) false j (padded (c :: t) z) a =
      write_loop i (separates c) j (padded t z) a := rfl

/-- What is left of the text, from inside of a field: the loop stays inside when it stops at the seventh
number or the cursor gets no further than the `z` null characters. -/
def Inside (t : List UInt8) : Prop :=
  ∀ (s j z : Nat) (a : Pointercal), j < 7 → 0 < z →
    ((write_loop (t.length + s) false j (padded t z) a).isSome ↔
      7 ≤ j + (fields t).tail.length ∨ s + ahead (fields t).tail ≤ z)

-- The same from the start of a field.
theorem write_loop_field {t : List UInt8} (ht : ∀ t', t'.length ≤ t.length → Inside t') (s : Nat)
    (hj : j < 7) (hz : 0 < z) :
    (write_loop (t.length + s) true j (padded t z) a).isSome ↔
      7 ≤ j + (fields t).length ∨ s + ahead (fields t) ≤ z := by
  obtain ⟨v, t', hv, hsplit⟩ := simple_strtol_padded hz t
  obtain ⟨a', ha'⟩ := store_isSome (a := a) hj v
  have hlen : t.length = (numeral t).length + t'.length := by
    rw [← List.length_append, ← hsplit]
  have htail : (fields t).tail = (fields t').tail := by
    conv_lhs => rw [hsplit]
    exact tail_fields_append fun c hc ↦ separates_of_mem_numeral hc
  rw [length_fields, ahead_fields, htail]
  obtain hi | ⟨i, hi⟩ : t.length + s = 0 ∨ ∃ i, t.length + s = i + 1 := by
    rcases Nat.eq_zero_or_pos (t.length + s) with h | h
    · exact Or.inl h
    · exact Or.inr ⟨t.length + s - 1, by omega⟩
  · -- no turn is left
    obtain rfl : t' = [] := List.length_eq_zero_iff.mp (by omega)
    rw [hi]
    refine iff_of_true rfl (Or.inr ?_)
    show s + ((numeral t).length + 0) ≤ z
    omega
  · have hloop : write_loop (t.length + s) true j (padded t z) a =
        if j + 1 ≥ 7 then some a'
        else write_loop (t.length + s) false (j + 1) (padded t' z) a' := by
      rw [hi, write_loop, hv]
      show (store a j v).bind _ = _
      rw [ha']
      rfl
    rw [hloop]
    by_cases hj' : j + 1 ≥ 7
    · rw [if_pos hj']
      exact iff_of_true rfl (Or.inl (by omega))
    · rw [if_neg hj', show t.length + s = t'.length + ((numeral t).length + s) by omega,
        ht t' (by omega) _ _ _ _ (by omega) hz]
      omega

theorem inside (t : List UInt8) : Inside t := by
  induction hn : t.length using Nat.strongRecOn generalizing t with
  | ind n ih =>
    intro s j z a hj hz
    cases t with
    | nil =>
      rw [List.length_nil, Nat.zero_add, write_loop_zeros]
      show _ ↔ 7 ≤ j + 0 ∨ s + 0 ≤ z
      omega
    | cons c t =>
      rw [List.length_cons] at hn
      rw [List.length_cons, Nat.add_right_comm, write_loop_cons]
      cases hc : separates c with
      | true =>
        rw [fields_sep hc, List.tail_cons]
        apply write_loop_field (fun t' ht' ↦ ih t'.length (by omega) t' rfl) s hj hz
      | false =>
        rw [tail_fields_cons hc]
        exact ih t.length (by omega) t rfl s j z a hj hz

end Cursor

section Behind

variable {p q behind buffer : List UInt8} {v result : BitVec 32} {a a' : Pointercal}

theorem strtoul_loop_append (h : strtoul_loop result p = some (v, q)) :
    strtoul_loop result (p ++ behind) = some (v, q ++ behind) := by
  induction p generalizing result with
  | nil => cases h
  | cons c p ih =>
    rw [strtoul_loop] at h
    rw [List.cons_append, strtoul_loop]
    by_cases hc : isdigit c = true
    · rw [if_pos hc] at h ⊢
      exact ih h
    · rw [if_neg hc] at h ⊢
      cases h
      rfl

theorem simple_strtol_append (h : simple_strtol p = some (v, q)) :
    simple_strtol (p ++ behind) = some (v, q ++ behind) := by
  cases p with
  | nil => cases h
  | cons c p =>
    rw [simple_strtol] at h
    rw [List.cons_append, simple_strtol]
    by_cases hc : c = 45
    · rw [if_pos hc] at h ⊢
      obtain ⟨⟨u, r⟩, hu, hvq⟩ := Option.map_eq_some_iff.mp h
      cases hvq
      rw [strtoul_loop_append hu]
      rfl
    · rw [if_neg hc] at h ⊢
      exact strtoul_loop_append h

theorem advance_append {next next' : Bool → List UInt8 → Option Pointercal}
    (hn : ∀ flag q, next flag q = some a' → next' flag (q ++ behind) = some a')
    (h : advance next p = some a') : advance next' (p ++ behind) = some a' := by
  cases p with
  | nil => cases h
  | cons c p => exact hn _ _ h

theorem write_loop_append {i j : Nat} {flag : Bool} (h : write_loop i flag j p a = some a') :
    write_loop i flag j (p ++ behind) a = some a' := by
  induction i generalizing flag j p a with
  | zero => exact h
  | succ i ih =>
    cases flag with
    | false => exact advance_append (fun _ _ h' ↦ ih h') h
    | true =>
      rw [write_loop] at h ⊢
      obtain ⟨⟨v, q⟩, hv, h⟩ := Option.bind_eq_some_iff.mp h
      obtain ⟨b, hb, h⟩ := Option.bind_eq_some_iff.mp h
      refine Option.bind_eq_some_iff.mpr ⟨(v, q ++ behind), simple_strtol_append hv, ?_⟩
      refine Option.bind_eq_some_iff.mpr ⟨b, hb, ?_⟩
      by_cases hj : j + 1 ≥ 7
      · rw [if_pos hj] at h ⊢
        exact h
      · rw [if_neg hj] at h ⊢
        exact advance_append (fun _ _ h' ↦ ih h') h

/-- A parser that stays inside of `buf` does not depend on what is behind it. -/
theorem ts_proc_write_behind {left : Nat} {r : Nat × Pointercal}
    (h : ts_proc_write [] buffer left a = some r) :
    ts_proc_write behind buffer left a = some r := by
  unfold ts_proc_write at h ⊢
  by_cases hl : left ≠ 0
  · rw [if_pos hl] at h ⊢
    exact h
  · simp only [if_neg hl, List.append_nil] at h ⊢
    obtain ⟨a', ha', hr⟩ := Option.map_eq_some_iff.mp h
    exact Option.map_eq_some_iff.mpr ⟨a', write_loop_append ha', hr⟩

end Behind

/-- The parser examines the characters of `buf` only and stores inside `pointercal` exactly if the copy
fails, or it stops at the seventh number, or the text and its numbers are no longer than `buf`. -/
theorem ts_proc_write_inside_iff (buffer : List UInt8) (left : Nat) (a : Pointercal) :
    (ts_proc_write [] buffer left a).isSome ↔ StaysInside buffer left := by
  have hlen : (copied buffer).length = min (BUF_SIZE - 1) buffer.length := List.length_take
  have hle : (copied buffer).length ≤ 255 := by
    rw [hlen]
    exact Nat.min_le_left ..
  have htake : buffer.take (min (BUF_SIZE - 1) buffer.length) = copied buffer := by
    unfold copied
    exact List.take_eq_take_min.symm
  unfold ts_proc_write StaysInside
  by_cases hl : left ≠ 0
  · simp [hl]
  · have h := write_loop_field (fun t' _ ↦ inside t') 0 (a := a) (t := copied buffer)
      (z := BUF_SIZE - (copied buffer).length) (show 0 < 7 by omega) (show 0 < 256 - _ by omega)
    simp only [if_neg hl, Option.isSome_map, List.append_nil, htake]
    rw [Nat.add_zero] at h
    rw [← hlen]
    show (write_loop _ true 0 (padded _ _) a).isSome ↔ _
    rw [h, or_iff_right hl]
    unfold BUF_SIZE
    omega

/-- After 200 digits the cursor leaves the buffer. -/
theorem ts_proc_write_outside :
    ¬∀ buffer left a, (ts_proc_write [] buffer left a).isSome = true := by
  intro h
  have h200 := h (List.replicate 200 49) 0 State.init.pointercal
  revert h200
  decide +kernel

end OK210Drivers.Touch
