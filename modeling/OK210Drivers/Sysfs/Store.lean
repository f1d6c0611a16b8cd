import OK210Drivers.Ingbenfs.WriteBack

/-!
# The attributes of lab52

`default_store` says that it has taken `sizeof(int)` bytes, whatever it has read.  A program that writes
until nothing remains makes a store for every four bytes of its text, and each of them sets the value
that it finds in what remains.
-/

open OK210Drivers.Ingbenfs

namespace OK210Drivers.Sysfs

def PAGE_SIZE : Nat := 4096
def sizeof_int : Nat := 4

inductive Attr
  | notify
  | trigger
  deriving DecidableEq

/-- The `value` of each attribute. -/
abbrev Values := Attr → BitVec 32

def isspace (c : UInt8) : Bool := c = 32 ∨ 9 ≤ c ∧ c ≤ 13 ∨ c = 160

-- `sscanf(buf, "%d", &value)`: the value that is assigned, if any.
def sscanf_d (buf : List UInt8) : Option (BitVec 32) :=
  let str := buf.dropWhile isspace
  let digit := if str.head? = some 45 then str.tail.head? else str.head?
  match digit with
  | some c => if 48 ≤ c ∧ c ≤ 57 then some (simple_strtol str) else none
  | none => none

def default_show (value : Values) (a : Attr) : List UInt8 :=
  (snprintf PAGE_SIZE (format_d (value a))).1

def default_store (value : Values) (a : Attr) (buf : List UInt8) : Nat × Values :=
  let value :=
    match sscanf_d buf with
    | some v => Function.update value a v
    | none => value
  (sizeof_int, Function.update value .notify (value a))

-- The loop of the writing program.
def write_all (value : Values) (a : Attr) (buf : List UInt8) : Values :=
  if buf = [] then value
  else
    let r := default_store value a buf
    write_all r.2 a (buf.drop r.1)
termination_by buf.length
decreasing_by
  rename_i hne
  have hpos := List.length_pos_iff.mpr hne
  show (buf.drop 4).length < _
  rw [List.length_drop]
  omega

/-- The number written is the number read, on the attribute and on `notify`. -/
def ReadsBack (n : BitVec 32) : Prop :=
  ∀ value a, let value' := write_all value a (decimal n.toInt ++ [10])
    default_show value' a = decimal n.toInt ++ [10] ∧
      default_show value' .notify = decimal n.toInt ++ [10]

variable {value : Values} {a : Attr}

/-! ## Numbers in the text -/

theorem default_show_eq : default_show value a = decimal (value a).toInt ++ [10] := by
  have hlen := format_d_length_le (value a)
  rw [default_show, snprintf, List.take_of_length_le, format_d_eq_decimal]
  show _ ≤ 4095
  omega

theorem isDigit_toUInt8 {c : Char} (h : c.isDigit = true) :
    c.toUInt8.toNat = c.toNat ∧ 48 ≤ c.toUInt8 ∧ c.toUInt8 ≤ 57 := by
  have hrange : 48 ≤ c.toNat ∧ c.toNat ≤ 57 := by
    rw [Char.isDigit, Bool.and_eq_true, decide_eq_true_eq, decide_eq_true_eq] at h
    exact h
  have hnat : c.toUInt8.toNat = c.toNat := by
    show c.toNat % 256 = c.toNat
    omega
  refine ⟨hnat, ?_, ?_⟩
  · rw [UInt8.le_iff_toNat_le, hnat]
    exact hrange.1
  · rw [UInt8.le_iff_toNat_le, hnat]
    exact hrange.2

theorem digitsValue_toDigits (n : Nat) : digitsValue ((Nat.toDigits 10 n).map Char.toUInt8) = n := by
  have hdigits : ∀ c ∈ Nat.toDigits 10 n, c.isDigit = true := fun c hc ↦
    Nat.isDigit_of_mem_toDigits (by decide) (by decide) hc
  have hfold : ∀ (l : List Char) (m : Nat), (∀ c ∈ l, c.isDigit = true) →
      (l.map Char.toUInt8).foldl (fun n d ↦ n * 10 + (d.toNat - 48)) m = Nat.ofDigitChars 10 l m := by
    intro l m hl
    induction l generalizing m with
    | nil => rfl
    | cons c l ih =>
      rw [List.forall_mem_cons] at hl
      rw [List.map_cons, List.foldl_cons, Nat.ofDigitChars_cons, ih _ hl.2,
        (isDigit_toUInt8 hl.1).1, Nat.mul_comm 10]
      rfl
  rw [digitsValue, hfold _ _ hdigits, Nat.ofDigitChars_ten_toDigits]

/-- The text of an `int` as a numeral. -/
def intNumeral (n : BitVec 32) : Numeral where
  minus := decide (n.toInt < 0)
  digits := (Nat.toDigits 10 n.toInt.natAbs).map Char.toUInt8
  nonempty := by
    rw [ne_eq, List.map_eq_nil_iff]
    exact Nat.toDigits_ne_nil
  isDigit := by
    intro d hd
    obtain ⟨c, hc, rfl⟩ := List.mem_map.mp hd
    exact (isDigit_toUInt8 (Nat.isDigit_of_mem_toDigits (by decide) (by decide) hc)).2
  short := by
    have hlen := format_d_length_le n
    rw [format_d, List.length_append, List.length_append, List.length_singleton] at hlen
    show _ < 20
    by_cases hneg : n.toInt < 0
    · rw [if_pos hneg, List.length_singleton] at hlen
      rw [decide_eq_true hneg, Bool.toNat_true]
      omega
    · rw [decide_eq_false hneg, Bool.toNat_false]
      omega

theorem intNumeral_text (n : BitVec 32) : (intNumeral n).text = decimal n.toInt := by
  by_cases hneg : n.toInt < 0
  · simp [Numeral.text, intNumeral, decimal, hneg]
  · simp [Numeral.text, intNumeral, decimal, hneg]

theorem intNumeral_value (n : BitVec 32) : (intNumeral n).value = n.toInt := by
  simp only [Numeral.value, intNumeral, digitsValue_toDigits, decide_eq_true_eq]
  split
  · omega
  · omega

/-! ## One store -/

theorem not_isspace {c : UInt8} (h : 45 ≤ c ∧ c ≤ 57) : ¬isspace c = true := by
  simp only [UInt8.le_iff_toNat_le] at h
  have h45 : 45 ≤ c.toNat := h.1
  have h57 : c.toNat ≤ 57 := h.2
  simp only [isspace, decide_eq_true_eq, UInt8.le_iff_toNat_le, not_or, not_and]
  refine ⟨?_, fun _ ↦ ?_, ?_⟩
  · rintro rfl
    exact absurd h45 (by decide)
  · show ¬ c.toNat ≤ 13
    omega
  · rintro rfl
    exact absurd h57 (by decide)

theorem sscanf_text (x : Numeral) : sscanf_d (x.text ++ [10]) = some (BitVec.ofInt 32 x.value) := by
  have hstol : simple_strtol (x.text ++ [10]) = BitVec.ofInt 32 x.value := by
    apply simple_strtol_text
    intro c hc
    cases hc
    decide
  cases hdigits : x.digits with
  | nil => exact absurd hdigits x.nonempty
  | cons d digits =>
    have hd : 48 ≤ d ∧ d ≤ 57 := x.isDigit d (hdigits ▸ List.mem_cons_self)
    have h45 : 45 ≤ d ∧ d ≤ 57 := ⟨UInt8.le_trans (by decide) hd.1, hd.2⟩
    cases hm : x.minus with
    | true =>
      have htext : x.text = 45 :: d :: digits := by rw [Numeral.text, hm, if_pos rfl, hdigits]
      rw [htext] at hstol ⊢
      rw [sscanf_d, List.cons_append, List.dropWhile_cons_of_neg (not_isspace (by decide))]
      simp only [List.head?_cons, if_true, List.tail_cons, List.cons_append, if_pos hd]
      exact congrArg some hstol
    | false =>
      have htext : x.text = d :: digits := by rw [Numeral.text, hm, hdigits]; rfl
      have hne : d ≠ 45 := by
        rintro rfl
        exact absurd hd.1 (by decide)
      rw [htext] at hstol ⊢
      rw [sscanf_d, List.cons_append, List.dropWhile_cons_of_neg (not_isspace h45)]
      simp only [List.head?_cons, Option.some.injEq, hne, if_false, if_pos hd]
      exact hstol

theorem update_notify_self (v : BitVec 32) :
    Function.update (Function.update value a v) .notify v a = v := by
  cases a with
  | notify => rw [Function.update_self]
  | trigger => rw [Function.update_of_ne (by decide), Function.update_self]

-- A store of a number sets the attribute and `notify`.
theorem default_store_text (x : Numeral) : (default_store value a (x.text ++ [10])).2 =
    Function.update (Function.update value a (BitVec.ofInt 32 x.value)) .notify
      (BitVec.ofInt 32 x.value) := by
  rw [default_store, sscanf_text]
  simp only [Function.update_self]

/-! ## The loop -/

theorem write_all_cons {buf : List UInt8} (h : buf ≠ []) :
    write_all value a buf = write_all (default_store value a buf).2 a (buf.drop sizeof_int) := by
  rw [write_all, if_neg h]
  rfl

theorem write_all_nil : write_all value a [] = value := by
  rw [write_all, if_pos rfl]

-- A newline that remains assigns nothing.
theorem write_all_newline (h : value .notify = value a) : write_all value a [10] = value := by
  have hscan : sscanf_d [10] = none := by decide
  rw [write_all_cons (List.cons_ne_nil _ _), default_store, hscan]
  simp only
  rw [← h, Function.update_eq_self]
  exact write_all_nil

/-- A text of at most four characters is taken by one store. -/
theorem write_all_short (x : Numeral) (hx : x.text.length ≤ 4) :
    write_all value a (x.text ++ [10]) = (default_store value a (x.text ++ [10])).2 := by
  have hne : x.text ++ [10] ≠ [] := List.append_ne_nil_of_right_ne_nil _ (List.cons_ne_nil _ _)
  rw [write_all_cons hne]
  by_cases h4 : x.text.length = 4
  · have hdrop : (x.text ++ [10]).drop sizeof_int = [10] := List.drop_left' h4
    rw [hdrop]
    apply write_all_newline
    rw [default_store_text, Function.update_self, update_notify_self]
  · have hdrop : (x.text ++ [10]).drop sizeof_int = [] := by
      apply List.drop_of_length_le
      rw [List.length_append, List.length_singleton]
      show _ ≤ 4
      omega
    rw [hdrop]
    exact write_all_nil

/-- What remains of a longer text is stored over what came before. -/
theorem write_all_long (x : Numeral) (hx : 4 ≤ x.text.length) :
    write_all value a (x.text ++ [10]) =
      write_all (default_store value a (x.text ++ [10])).2 a (x.text.drop 4 ++ [10]) := by
  have hne : x.text ++ [10] ≠ [] := List.append_ne_nil_of_right_ne_nil _ (List.cons_ne_nil _ _)
  rw [write_all_cons hne]
  congr 1
  exact List.drop_append_of_le_length hx

/-- The digits that a store leaves of a longer text. -/
def leftover (x : Numeral) (hx : 4 < x.text.length) : Numeral where
  minus := false
  digits := x.text.drop 4
  nonempty := by
    rw [ne_eq, List.drop_eq_nil_iff]
    omega
  isDigit := by
    intro d hd
    -- the sign is among the four characters that are dropped
    have hmem : d ∈ x.digits := by
      rw [Numeral.text] at hd
      split at hd
      · exact List.mem_of_mem_drop (List.drop_succ_cons ▸ hd)
      · exact List.mem_of_mem_drop hd
    exact x.isDigit d hmem
  short := by
    have hlen := x.length_text_lt
    rw [Bool.toNat_false, List.length_drop]
    omega

theorem leftover_text (x : Numeral) (hx : 4 < x.text.length) :
    (leftover x hx).text = x.text.drop 4 := rfl

theorem digitsValue_lt {digits : List UInt8} (h : ∀ d ∈ digits, 48 ≤ d ∧ d ≤ 57) :
    digitsValue digits < 10 ^ digits.length := by
  induction digits using List.reverseRecOn with
  | nil => exact Nat.one_pos
  | append_singleton digits d ih =>
    rw [List.forall_mem_append, List.forall_mem_singleton] at h
    have hlt := ih h.1
    have hd : d.toNat ≤ 57 := UInt8.le_iff_toNat_le.mp h.2.2
    rw [digitsValue, List.foldl_append, List.length_append, List.length_singleton, Nat.pow_succ]
    show digitsValue digits * 10 + (d.toNat - 48) < _
    omega

/-- Digits of which any number are stored leave a number with no more digits. -/
theorem write_all_lt (x : Numeral) (hx : x.minus = false) :
    (write_all value a (x.text ++ [10]) a).toNat < 10 ^ x.text.length := by
  induction hk : x.text.length using Nat.strong_induction_on generalizing x value with
  | _ k ih =>
    by_cases h4 : 4 < x.text.length
    · have hlen : (leftover x h4).text.length = k - 4 := by
        rw [leftover_text, List.length_drop, hk]
      rw [write_all_long x (Nat.le_of_lt h4)]
      apply Nat.lt_of_lt_of_le (ih (k - 4) (by omega) (leftover x h4) rfl hlen)
      exact Nat.pow_le_pow_right (by decide) (Nat.sub_le k 4)
    · have hvalue : x.value = digitsValue x.digits := by rw [Numeral.value, hx]; rfl
      have hdigits : x.text = x.digits := by rw [Numeral.text, hx]; rfl
      rw [write_all_short x (by omega), default_store_text, update_notify_self, ← hk, hdigits,
        hvalue, BitVec.ofInt_natCast, BitVec.toNat_ofNat]
      exact Nat.lt_of_le_of_lt (Nat.mod_le _ _) (digitsValue_lt x.isDigit)

/-! ## What is read back -/

theorem decimal_length_le_iff {z : Int} :
    (decimal z).length ≤ 4 ↔ -999 ≤ z ∧ z ≤ 9999 := by
  have h3 := Nat.length_toDigits_le_iff (b := 10) (n := z.natAbs) (k := 3) (by decide) (by decide)
  have h4 := Nat.length_toDigits_le_iff (b := 10) (n := z.natAbs) (k := 4) (by decide) (by decide)
  rw [decimal, List.length_append, List.length_map]
  split
  · rw [List.length_singleton]
    omega
  · rw [List.length_nil]
    omega

theorem decimal_length_le {m k : Nat} (hk : 0 < k) (h : m < 10 ^ k) :
    (decimal (m : Int)).length ≤ k := by
  have hneg : ¬(m : Int) < 0 := by omega
  rw [decimal, if_neg hneg, List.nil_append, List.length_map, Int.natAbs_natCast]
  exact (Nat.length_toDigits_le_iff (by decide) hk).mpr h

-- The last store leaves fewer digits than were written.
theorem longer_lost (x : Numeral) (h4 : 4 < x.text.length) (h11 : x.text.length ≤ 11) :
    default_show (write_all value a (x.text ++ [10])) a ≠ x.text ++ [10] := by
  rw [write_all_long x (Nat.le_of_lt h4), ← leftover_text x h4, default_show_eq]
  intro hshow
  generalize (default_store value a (x.text ++ [10])).2 = value at hshow
  have hrest : (leftover x h4).text.length = x.text.length - 4 := List.length_drop
  have hlt : (write_all value a ((leftover x h4).text ++ [10]) a).toNat < 10 ^ (x.text.length - 4) :=
    hrest ▸ write_all_lt (leftover x h4) rfl
  have hint : (write_all value a ((leftover x h4).text ++ [10]) a).toNat < 10 ^ 7 :=
    Nat.lt_of_lt_of_le hlt (Nat.pow_le_pow_right (by decide) (by omega))
  rw [BitVec.toInt_eq_toNat_of_lt (by omega)] at hshow
  have hlen := decimal_length_le (by omega) hlt
  rw [List.append_cancel_right hshow] at hlen
  omega

/-- A number is read back exactly when its text has at most four characters. -/
theorem read_back_iff (n : BitVec 32) : ReadsBack n ↔ -999 ≤ n.toInt ∧ n.toInt ≤ 9999 := by
  have hlen := format_d_length_le n
  rw [format_d_eq_decimal, ← intNumeral_text, List.length_append, List.length_singleton] at hlen
  unfold ReadsBack
  rw [← decimal_length_le_iff, ← intNumeral_text]
  constructor
  · intro h
    by_contra hlong
    have hshow := (h (fun _ ↦ 0) .notify).1
    exact longer_lost _ (by omega) (by omega) hshow
  · intro hshort value a
    have hvalue : BitVec.ofInt 32 (intNumeral n).value = n := by
      rw [intNumeral_value, BitVec.ofInt_toInt]
    have hall : write_all value a ((intNumeral n).text ++ [10]) =
        Function.update (Function.update value a n) .notify n := by
      rw [write_all_short _ hshort, default_store_text, hvalue]
    simp only
    rw [hall, default_show_eq, default_show_eq, update_notify_self, Function.update_self,
      intNumeral_text]
    exact ⟨rfl, rfl⟩

/-- "12345" is stored as 12345 and then as 5. -/
theorem five_digits_lost :
    ¬ReadsBack 12345 ∧ decimal (12345 : BitVec 32).toInt = [49, 50, 51, 52, 53] ∧
      ∀ value a, default_show (write_all value a [49, 50, 51, 52, 53, 10]) a = [53, 10] := by
  have htext : decimal (12345 : BitVec 32).toInt = [49, 50, 51, 52, 53] := by decide
  have hstore : ∀ value a, default_show (write_all value a [49, 50, 51, 52, 53, 10]) a = [53, 10] := by
    intro value a
    have hscan : sscanf_d [53, 10] = some 5 := by decide
    have hsecond : ∀ value : Values, write_all value a [53, 10] =
        Function.update (Function.update value a 5) .notify 5 := by
      intro value
      rw [write_all_cons (List.cons_ne_nil _ _), default_store, hscan]
      simp only [Function.update_self]
      exact write_all_nil
    have hfirst : write_all value a [49, 50, 51, 52, 53, 10] =
        write_all (default_store value a [49, 50, 51, 52, 53, 10]).2 a [53, 10] :=
      write_all_cons (List.cons_ne_nil _ _)
    rw [hfirst, hsecond, default_show_eq, update_notify_self]
    decide
  refine ⟨fun h ↦ ?_, htext, hstore⟩
  have hshow := (h (fun _ ↦ 0) .trigger).1
  rw [htext] at hshow
  exact absurd ((hstore _ _).symm.trans hshow) (by decide)

end OK210Drivers.Sysfs
