import OK210Drivers.Ingbenfs.Chunks

/-!
# Numbers written to a counter file

A written number reaches the counter through `simple_strtol`, which keeps its 32 low bits only.
-/

open Library

namespace OK210Drivers.Ingbenfs

/-- The decimal text of an integer. -/
def decimal (z : Int) : List UInt8 :=
  (if z < 0 then [45] else []) ++ (Nat.toDigits 10 z.natAbs).map Char.toUInt8

def digitsValue (digits : List UInt8) : Nat := digits.foldl (fun n d ↦ n * 10 + (d.toNat - 48)) 0

/-- An optional minus sign followed by decimal digits, short enough for `tmp`. -/
structure Numeral where
  minus : Bool
  digits : List UInt8
  nonempty : digits ≠ []
  isDigit : ∀ d ∈ digits, 48 ≤ d ∧ d ≤ 57
  short : minus.toNat + digits.length < TMPSIZE

def Numeral.text (x : Numeral) : List UInt8 := if x.minus then 45 :: x.digits else x.digits

def Numeral.value (x : Numeral) : Int :=
  if x.minus then -(digitsValue x.digits : Int) else digitsValue x.digits

/-- The integers that an `int` holds. -/
def FitsInt (z : Int) : Prop := -2 ^ 31 ≤ z ∧ z < 2 ^ 31

instance (z : Int) : Decidable (FitsInt z) := inferInstanceAs (Decidable (_ ∧ _))

/-- Client `c` reads the file from its start on until a read returns 0. -/
def FullRead (c : Nat) (s : State) (es : List Event) (t : State) : Prop :=
  Run Step s es t ∧ s.offset c = 0 ∧ (∀ e ∈ es, ReadsOn c e) ∧ ∃ e ∈ es, e.ret = 0

/-- A number that a write accepts is read back, and one that the counter cannot hold is refused. -/
def WrittenBack (counter : BitVec 32) (x : Numeral) (left : Nat) : Prop :=
  let r := ingbenfs_write_file counter 0 x.text left
  (r.1 = x.text.length → ∀ c offset es t, FullRead c ⟨r.2, offset⟩ es t →
    delivered es = decimal x.value ++ [10]) ∧
  (¬FitsInt x.value → r.1 < 0 ∧ r.2 = counter)

section Parse

variable {x : Numeral} {digits rest : List UInt8}

theorem format_d_eq_decimal (v : BitVec 32) : format_d v = decimal v.toInt ++ [10] := rfl

-- The digits end at the first character that is none.
theorem strtoul_loop_digits (hdigits : ∀ d ∈ digits, 48 ≤ d ∧ d ≤ 57)
    (hrest : ∀ c ∈ rest.head?, ¬(48 ≤ c ∧ c ≤ 57)) (n : Nat) :
    strtoul_loop n (digits ++ rest) = digits.foldl (fun n d ↦ n * 10 + (d.toNat - 48)) n := by
  induction digits generalizing n with
  | nil =>
    cases rest with
    | nil => rfl
    | cons c rest =>
      have hc := hrest c rfl
      rw [List.nil_append, strtoul_loop, if_neg hc]
      rfl
  | cons d digits ih =>
    have hd : 48 ≤ d ∧ d ≤ 57 := hdigits d (List.mem_cons_self ..)
    rw [List.cons_append, strtoul_loop, if_pos hd, List.foldl_cons]
    exact ih (fun e he ↦ hdigits e (List.mem_cons_of_mem _ he)) _

theorem simple_strtoul_digits (hdigits : ∀ d ∈ digits, 48 ≤ d ∧ d ≤ 57)
    (hrest : ∀ c ∈ rest.head?, ¬(48 ≤ c ∧ c ≤ 57)) :
    simple_strtoul (digits ++ rest) = BitVec.ofNat 32 (digitsValue digits) := by
  unfold simple_strtoul digitsValue
  rw [strtoul_loop_digits hdigits hrest]

theorem Numeral.length_text : x.text.length = x.minus.toNat + x.digits.length := by
  unfold Numeral.text
  cases x.minus
  · show x.digits.length = 0 + x.digits.length
    omega
  · show x.digits.length + 1 = 1 + x.digits.length
    omega

theorem Numeral.length_text_lt : x.text.length < TMPSIZE := by
  rw [x.length_text]
  exact x.short

/-- What the parser makes of a numeral is its value, modulo `2 ^ 32`. -/
theorem simple_strtol_text (hrest : ∀ c ∈ rest.head?, ¬(48 ≤ c ∧ c ≤ 57)) :
    simple_strtol (x.text ++ rest) = BitVec.ofInt 32 x.value := by
  have hul := simple_strtoul_digits x.isDigit hrest
  unfold Numeral.text Numeral.value
  cases hm : x.minus with
  | true =>
    show -simple_strtoul (x.digits ++ _) = BitVec.ofInt 32 (-(digitsValue x.digits : Int))
    rw [hul, BitVec.ofInt_neg, BitVec.ofInt_natCast]
  | false =>
    show simple_strtol (x.digits ++ _) = BitVec.ofInt 32 (digitsValue x.digits : Int)
    rw [BitVec.ofInt_natCast, ← hul]
    cases hd : x.digits with
    | nil => exact absurd hd x.nonempty
    | cons d digits =>
      -- a digit is not the minus sign
      have h45 : d ≠ 45 := by
        rintro rfl
        have hdigit := (x.isDigit 45 (hd ▸ List.mem_cons_self ..)).1
        exact absurd hdigit (by decide)
      unfold simple_strtol
      split
      · rename_i heq
        exact absurd (List.cons.inj heq).1 h45
      · rfl

theorem write_numeral (counter : BitVec 32) (left : Nat) :
    ingbenfs_write_file counter 0 x.text left =
      if left ≠ 0 then (-EFAULT, counter) else (x.text.length, BitVec.ofInt 32 x.value) := by
  have hlen := x.length_text_lt
  -- `memset` has put a null behind the text
  have hnull : ∀ c ∈ (List.replicate (TMPSIZE - x.text.length) (0 : UInt8)).head?,
      ¬(48 ≤ c ∧ c ≤ 57) := by
    intro c hc
    rw [List.eq_of_mem_replicate (List.mem_of_mem_head? hc)]
    decide
  unfold ingbenfs_write_file
  rw [if_neg (by omega), if_neg (by omega)]
  simp only [simple_strtol_text hnull]

theorem toInt_ofInt_of_fits {z : Int} (h : FitsInt z) : (BitVec.ofInt 32 z).toInt = z := by
  rw [BitVec.toInt_ofInt]
  have hlo := h.1
  have hhi := h.2
  apply Int.bmod_eq_of_le
  · omega
  · omega

/-- A number is read back or refused as it should be exactly when the copy from the caller fails or the
number is one that an `int` holds. -/
theorem writtenBack_iff (counter : BitVec 32) (x : Numeral) (left : Nat) :
    WrittenBack counter x left ↔ left ≠ 0 ∨ FitsInt x.value := by
  unfold WrittenBack
  rw [write_numeral]
  by_cases hleft : left ≠ 0
  · rw [if_pos hleft]
    refine iff_of_true ⟨fun hret ↦ ?_, fun _ ↦ ⟨(by decide : -EFAULT < 0), rfl⟩⟩
      (Or.inl hleft)
    have hneg : -EFAULT = (x.text.length : Int) := hret
    have h14 : EFAULT = 14 := rfl
    omega
  · rw [if_neg hleft]
    constructor
    · rintro ⟨_, hrefused⟩
      by_contra hnot
      have hlt : (x.text.length : Int) < 0 := (hrefused fun hfits ↦ hnot (Or.inr hfits)).1
      omega
    · intro h
      have hfits := h.resolve_left hleft
      refine ⟨fun _ c offset es t hread ↦ ?_, fun hnot ↦ absurd hfits hnot⟩
      obtain ⟨hrun, hstart, hreads, hend⟩ := hread
      have hthrough := readThrough_run hrun hstart hreads
      rw [hthrough.bytes, hthrough.ended hend, List.take_length, format_d_eq_decimal]
      rw [toInt_ofInt_of_fits hfits]

end Parse

/-- "4294967296" is accepted, and the file then shows "0". -/
def two_pow_32 : Numeral where
  minus := false
  digits := [52, 50, 57, 52, 57, 54, 55, 50, 57, 54]
  nonempty := by decide
  isDigit := by
    simp only [List.mem_cons, List.not_mem_nil, or_false, forall_eq_or_imp, forall_eq]
    decide
  short := by decide

theorem too_large_accepted :
    ¬WrittenBack 5 two_pow_32 0 ∧ two_pow_32.value = 4294967296 ∧
      ingbenfs_write_file 5 0 two_pow_32.text 0 = (10, 0) ∧
      ∃ es t, FullRead 0 ⟨0, fun _ ↦ 0⟩ es t ∧ delivered es = [48, 10] := by
  have hr₁ : ingbenfs_read_file 0 0 20 0 = ⟨2, [48, 10], 1, 2⟩ := by decide
  have hr₂ : ingbenfs_read_file 1 2 20 0 = ⟨0, [], 1, 2⟩ := by decide
  have h₁ : Run Step ⟨0, fun _ ↦ 0⟩ _ _ := .snoc .nil (.read 0 20 0 hr₁)
  have h₂ := h₁.snoc (.read 0 20 0 hr₂)
  refine ⟨fun h ↦ ?_, by decide, by decide, _, _, ⟨h₂, rfl, ?_, _, List.mem_append_right _
    (List.mem_singleton_self _), rfl⟩, rfl⟩
  · have hret := (h.2 (by decide)).1
    exact absurd hret (by decide)
  · intro e he
    simp only [List.nil_append, List.mem_append, List.mem_singleton] at he
    rcases he with rfl | rfl
    · exact ⟨rfl, 20, by decide, rfl⟩
    · exact ⟨rfl, 20, by decide, rfl⟩

end OK210Drivers.Ingbenfs
