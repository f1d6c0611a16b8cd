import OK210Drivers.Samplefs.Options

/-!
# The grammar of the mount options

An option is a key, an equals sign and a number in C notation, all of it.  The parser takes the first
five characters for the key, stops at the first character that is no digit, and keeps the low 32 bits.
-/

namespace OK210Drivers.Samplefs

/-- The value of a text of digits; `none` if a character is not one. -/
def digitsIn (base : Nat) (digits : List UInt8) : Option Nat :=
  digits.foldlM (fun n c ↦ ((xdigit c).filter (· < base)).map (n * base + ·)) 0

/-- The number that a whole text denotes in C notation: octal behind `0`, hexadecimal behind `0x`,
else decimal. -/
def cNotation : List UInt8 → Option Nat
  | [] => none
  | 48 :: 120 :: c :: digits => digitsIn 16 (c :: digits)
  | 48 :: 88 :: c :: digits => digitsIn 16 (c :: digits)
  | 48 :: digits => digitsIn 8 digits
  | digits => digitsIn 10 digits

/-- The item is `key=value`, where the key is the given one up to case and the value a number from 1 to
`2 ^ 31 - 1`. -/
def IsOption (key item : List UInt8) (v : Nat) : Prop :=
  ∃ name value, item = name ++ 61 :: value ∧ 61 ∉ name ∧ name.map tolower = key ∧
    cNotation value = some v ∧ 1 ≤ v ∧ v < 2 ^ 31

/-- A field is the value of the last option for its key, or what it was before if there is none. -/
def FollowsLast (key : List UInt8) (items : List (List UInt8)) (old new : BitVec 32) : Prop :=
  (∀ pre item post v, items = pre ++ item :: post → IsOption key item v →
    (∀ i ∈ post, ∀ w, ¬ IsOption key i w) → new = BitVec.ofNat 32 v) ∧
  ((∀ item ∈ items, ∀ v, ¬ IsOption key item v) → new = old)

def items : Option (List UInt8) → List (List UInt8)
  | none => []
  | some options => options.splitOn 44

/-- The options are parsed by the grammar: both fields follow the last option for them, and an item
that is no option has no effect, whatever the fields are. -/
def ParsedByGrammar (options : Option (List UInt8)) : Prop :=
  (∀ sfs_sb, let r := samplefs_parse_mount_options options sfs_sb
    FollowsLast rsize_key (items options) sfs_sb.rsize r.rsize ∧
    FollowsLast wsize_key (items options) sfs_sb.wsize r.wsize) ∧
  ∀ item ∈ items options, (∀ v, ¬ IsOption rsize_key item v) → (∀ v, ¬ IsOption wsize_key item v) →
    ∀ sfs_sb, parse_item sfs_sb item = sfs_sb

/-- `digits` is the longest beginning of a value that is a number in C notation, and the number is `n`. -/
def BeginsWith (value digits : List UInt8) (n : Nat) : Prop :=
  digits <+: value ∧ cNotation digits = some n ∧
    ∀ longer, longer <+: value → (cNotation longer).isSome → longer.length ≤ digits.length

/-- If the name of an item begins with the key and its value with a number whose low 32 bits are from 1
to `2 ^ 31 - 1`, then the name is the key, nothing follows the number, and the number has no higher
bits. -/
def SoundFor (key item : List UInt8) : Prop :=
  ∀ name value digits n, item = name ++ 61 :: value → 61 ∉ name → (name.take 5).map tolower = key →
    BeginsWith value digits n → 1 ≤ n % 2 ^ 32 → n % 2 ^ 32 < 2 ^ 31 →
      name.map tolower = key ∧ digits = value ∧ n < 2 ^ 31

/-! ## Names -/

-- `strnicmp` against a lower-case text without nulls compares that many characters.
theorem strnicmp_eq_zero_iff (s1 s2 : List UInt8) (h0 : 0 ∉ s2) (hlow : s2.map tolower = s2) :
    strnicmp s1 s2 s2.length = 0 ↔ (s1.take s2.length).map tolower = s2 := by
  induction s2 generalizing s1 with
  | nil => simp [strnicmp]
  | cons d s2 ih =>
    rw [List.mem_cons, not_or] at h0
    rw [List.map_cons, List.cons.injEq] at hlow
    have hd : d ≠ 0 := fun he ↦ h0.1 he.symm
    have hpos : d.toNat ≠ 0 := fun he ↦ hd (UInt8.toNat_inj.mp he)
    cases s1 with
    | nil =>
      rw [List.length_cons, strnicmp]
      simp only [List.headD_nil, true_or, if_true, List.headD_cons, List.take_nil, List.map_nil,
        List.nil_eq, reduceCtorEq, iff_false]
      show ((0 : UInt8).toNat : Int) - d.toNat ≠ 0
      rw [UInt8.toNat_zero]
      omega
    | cons c s1 =>
      rw [List.length_cons, strnicmp, List.take_succ_cons, List.map_cons, List.cons.injEq,
        ← ih s1 h0.2 hlow.2]
      simp only [List.headD_cons, List.tail_cons, hd, or_false, hlow.1]
      by_cases hc : c = 0
      · have hzero : tolower 0 = 0 := by decide
        rw [if_pos hc, hc, hzero, UInt8.toNat_zero]
        exact iff_of_false (by omega) fun h ↦ hd h.1.symm
      · rw [if_neg hc]
        by_cases he : tolower c = d
        · rw [if_neg (not_not.mpr he)]
          exact (and_iff_right he).symm
        · rw [if_pos he]
          refine iff_of_false ?_ fun h ↦ he h.1
          intro hsub
          exact he (UInt8.toNat_inj.mp (by omega))

theorem cut_append {c : UInt8} {name : List UInt8} (value : List UInt8) (h : c ∉ name) :
    cut c (name ++ c :: value) = (name, some value) := by
  induction name with
  | nil => simp [cut]
  | cons d name ih =>
    rw [List.mem_cons, not_or] at h
    rw [List.cons_append, cut, if_neg fun he ↦ h.1 he.symm, ih h.2]

/-! ## Numbers -/

theorem strtoul_loop_cons (base n : Nat) (c : UInt8) (cp : List UInt8) : strtoul_loop base n (c :: cp) =
    (((xdigit c).filter (· < base)).map (n * base + ·)).elim n (strtoul_loop base · cp) := by
  rw [strtoul_loop]
  cases xdigit c with
  | none => rfl
  | some d =>
    by_cases hlt : d < base
    · simp [Option.filter, hlt]
    · simp [Option.filter, hlt]

-- The loop takes the longest beginning that consists of digits.
theorem strtoul_loop_longest (base n : Nat) (text : List UInt8) :
    let value := List.foldlM fun n c ↦ ((xdigit c).filter (· < base)).map (n * base + ·)
    ∃ digits, digits <+: text ∧ value n digits = some (strtoul_loop base n text) ∧
      ∀ longer, longer <+: text → (value n longer).isSome → longer.length ≤ digits.length := by
  intro value
  induction text generalizing n with
  | nil => exact ⟨[], List.nil_prefix, rfl, fun longer hl _ ↦ hl.length_le⟩
  | cons c text ih =>
    rw [strtoul_loop_cons]
    cases hm : ((xdigit c).filter (· < base)).map (n * base + ·) with
    | none =>
      refine ⟨[], List.nil_prefix, rfl, fun longer hl hsome ↦ ?_⟩
      cases longer with
      | nil => exact Nat.le_refl _
      | cons d longer =>
        rw [(List.cons_prefix_cons.mp hl).1] at hsome
        simp only [value, List.foldlM_cons, hm] at hsome
        cases hsome
    | some m =>
      obtain ⟨digits, hprefix, hdigits, hlongest⟩ := ih m
      refine ⟨c :: digits, List.cons_prefix_cons.mpr ⟨rfl, hprefix⟩, ?_, fun longer hl hsome ↦ ?_⟩
      · simp only [value, List.foldlM_cons, hm]
        exact hdigits
      · cases longer with
        | nil => exact Nat.zero_le _
        | cons d longer =>
          rw [List.cons_prefix_cons] at hl
          obtain ⟨rfl, hl⟩ := hl
          simp only [value, List.foldlM_cons, hm] at hsome
          exact Nat.succ_le_succ (hlongest longer hl hsome)

theorem longest_digits (base : Nat) (text : List UInt8) : ∃ digits, digits <+: text ∧
    digitsIn base digits = some (strtoul_loop base 0 text) ∧
      ∀ longer, longer <+: text → (digitsIn base longer).isSome → longer.length ≤ digits.length :=
  strtoul_loop_longest base 0 text

theorem digitsIn_cons_eq_none {base : Nat} {c : UInt8} (digits : List UInt8)
    (h : (xdigit c).filter (· < base) = none) : digitsIn base (c :: digits) = none := by
  rw [digitsIn, List.foldlM_cons, h]
  rfl

/-- `x` and a hexadecimal digit follow the leading `0`. -/
def IsHex (text : List UInt8) : Prop :=
  ∃ x c digits, text = x :: c :: digits ∧ (x = 120 ∨ x = 88) ∧ (xdigit c).isSome

theorem cNotation_hex {x c : UInt8} {digits : List UInt8} (hx : x = 120 ∨ x = 88) :
    cNotation (48 :: x :: c :: digits) = digitsIn 16 (c :: digits) := by
  rcases hx with rfl | rfl <;> rfl

theorem cNotation_octal {text : List UInt8} (h : ¬IsHex text) : cNotation (48 :: text) = digitsIn 8 text := by
  -- Behind `0x` without a hexadecimal digit neither base has a number.
  have hnone : ∀ x c digits, (x = 120 ∨ x = 88) → text = x :: c :: digits →
      digitsIn 16 (c :: digits) = digitsIn 8 (x :: c :: digits) := by
    rintro x c digits hx rfl
    have hc : xdigit c = none := by
      by_contra hsome
      exact h ⟨x, c, digits, rfl, hx, Option.isSome_iff_ne_none.mpr hsome⟩
    rw [digitsIn_cons_eq_none _ (by rw [hc]; rfl), digitsIn_cons_eq_none]
    rcases hx with rfl | rfl <;> decide
  unfold cNotation
  split
  · rename_i heq
    cases heq
  · rename_i c digits heq
    rw [List.tail_eq_of_cons_eq heq]
    exact hnone 120 c digits (Or.inl rfl) (List.tail_eq_of_cons_eq heq)
  · rename_i c digits heq
    rw [List.tail_eq_of_cons_eq heq]
    exact hnone 88 c digits (Or.inr rfl) (List.tail_eq_of_cons_eq heq)
  · rename_i heq
    rw [List.tail_eq_of_cons_eq heq]
  · rename_i hzero
    exact absurd rfl (hzero text)

theorem cNotation_decimal {c : UInt8} {text : List UInt8} (h : c ≠ 48) :
    cNotation (c :: text) = digitsIn 10 (c :: text) := by
  unfold cNotation
  split
  · rename_i heq
    cases heq
  · rename_i heq
    exact absurd (List.head_eq_of_cons_eq heq) h
  · rename_i heq
    exact absurd (List.head_eq_of_cons_eq heq) h
  · rename_i heq
    exact absurd (List.head_eq_of_cons_eq heq) h
  · rfl

theorem strtoul_zero_octal {text : List UInt8} (h : ¬IsHex text) : strtoul_zero text = strtoul_loop 8 0 text := by
  match text with
  | [] => rfl
  | [_] => rfl
  | x :: c :: digits => rw [strtoul_zero, if_neg fun hx ↦ h ⟨x, c, digits, rfl, hx⟩]

theorem xdigit_lt {c : UInt8} {d : Nat} (h : xdigit c = some d) : d < 16 := by
  simp only [xdigit, UInt8.le_iff_toNat_le, UInt8.reduceToNat] at h
  split_ifs at h with hc hc hc
  all_goals
    obtain ⟨_, hhi⟩ := hc
    have hd := Option.some.inj h
    omega

section BeginsWith

variable {value digits text : List UInt8} {n : Nat}

theorem beginsWith_hex {x c : UInt8} (hx : x = 120 ∨ x = 88) (hc : (xdigit c).isSome) :
    ∃ digits, BeginsWith (48 :: x :: c :: text) digits (strtoul_loop 16 0 (c :: text)) := by
  obtain ⟨digits, hprefix, hdigits, hlongest⟩ := longest_digits 16 (c :: text)
  have hone : 1 ≤ digits.length := by
    refine hlongest [c] (List.cons_prefix_cons.mpr ⟨rfl, List.nil_prefix⟩) ?_
    obtain ⟨d, hd⟩ := Option.isSome_iff_exists.mp hc
    simp [digitsIn, hd, Option.filter, xdigit_lt hd]
  refine ⟨48 :: x :: digits, ?_, ?_, fun longer hl hsome ↦ ?_⟩
  · exact List.cons_prefix_cons.mpr ⟨rfl, List.cons_prefix_cons.mpr ⟨rfl, hprefix⟩⟩
  · obtain ⟨d, ds, rfl⟩ := List.exists_cons_of_length_pos hone
    rw [cNotation_hex hx, hdigits]
  · match longer with
    | [] | [_] | [_, _] => simp only [List.length_cons, List.length_nil] at *; omega
    | z :: y :: d :: ds =>
      rw [List.cons_prefix_cons, List.cons_prefix_cons] at hl
      obtain ⟨rfl, rfl, hl⟩ := hl
      rw [cNotation_hex hx] at hsome
      exact Nat.succ_le_succ (Nat.succ_le_succ (hlongest _ hl hsome))

theorem beginsWith_octal (h : ¬IsHex text) :
    ∃ digits, BeginsWith (48 :: text) digits (strtoul_loop 8 0 text) := by
  obtain ⟨digits, hprefix, hdigits, hlongest⟩ := longest_digits 8 text
  have hnot : ∀ {l}, l <+: text → ¬IsHex l := by
    rintro l ⟨rest, rfl⟩ ⟨x, c, ds, rfl, hx⟩
    exact h ⟨x, c, ds ++ rest, rfl, hx⟩
  refine ⟨48 :: digits, List.cons_prefix_cons.mpr ⟨rfl, hprefix⟩, ?_, fun longer hl hsome ↦ ?_⟩
  · rw [cNotation_octal (hnot hprefix), hdigits]
  · cases longer with
    | nil => exact Nat.zero_le _
    | cons d longer =>
      rw [List.cons_prefix_cons] at hl
      obtain ⟨rfl, hl⟩ := hl
      rw [cNotation_octal (hnot hl)] at hsome
      exact Nat.succ_le_succ (hlongest longer hl hsome)

-- A value that begins with no digit begins with no number.
theorem beginsWith_decimal {c : UInt8} (hc : c ≠ 48) :
    (strtoul_loop 10 0 (c :: text) = 0 ∧ ∀ digits n, ¬BeginsWith (c :: text) digits n) ∨
      ∃ digits, BeginsWith (c :: text) digits (strtoul_loop 10 0 (c :: text)) := by
  obtain ⟨digits, hprefix, hdigits, hlongest⟩ := longest_digits 10 (c :: text)
  have hdecimal : ∀ {l}, l <+: c :: text → l ≠ [] → cNotation l = digitsIn 10 l := by
    intro l hl hne
    obtain ⟨d, ds, rfl⟩ := List.exists_cons_of_ne_nil hne
    rw [List.cons_prefix_cons] at hl
    exact cNotation_decimal (hl.1 ▸ hc)
  have hlongest' : ∀ longer, longer <+: c :: text → (cNotation longer).isSome →
      longer ≠ [] ∧ longer.length ≤ digits.length := by
    intro longer hl hsome
    have hne : longer ≠ [] := by
      rintro rfl
      cases hsome
    exact ⟨hne, hlongest longer hl (hdecimal hl hne ▸ hsome)⟩
  by_cases hnil : digits = []
  · subst hnil
    refine Or.inl ⟨(Option.some.inj hdigits).symm, fun digits n h ↦ ?_⟩
    obtain ⟨hne, hlen⟩ := hlongest' digits h.1 (by rw [h.2.1]; rfl)
    exact hne (List.length_eq_zero_iff.mp (Nat.le_zero.mp hlen))
  · exact Or.inr ⟨digits, hprefix, (hdecimal hprefix hnil).trans hdigits,
      fun longer hl hsome ↦ (hlongest' longer hl hsome).2⟩

theorem BeginsWith.unique {digits' : List UInt8} {n' : Nat} (h : BeginsWith value digits n)
    (h' : BeginsWith value digits' n') : digits = digits' ∧ n = n' := by
  have hsome : (cNotation digits).isSome := by rw [h.2.1]; rfl
  have hsome' : (cNotation digits').isSome := by rw [h'.2.1]; rfl
  have hlen := Nat.le_antisymm (h'.2.2 digits h.1 hsome) (h.2.2 digits' h'.1 hsome')
  obtain rfl := (List.prefix_of_prefix_length_le h.1 h'.1 (Nat.le_of_eq hlen)).eq_of_length hlen
  exact ⟨rfl, Option.some.inj (h.2.1.symm.trans h'.2.1)⟩

theorem beginsWith_whole (h : cNotation value = some n) : BeginsWith value value n :=
  ⟨List.prefix_rfl, h, fun _ hl _ ↦ hl.length_le⟩

theorem beginsWith_strtoul :
    (simple_strtoul value = 0 ∧ ∀ digits n, ¬BeginsWith value digits n) ∨
      ∃ digits n, BeginsWith value digits n ∧ simple_strtoul value = BitVec.ofNat 32 n := by
  cases value with
  | nil =>
    refine Or.inl ⟨rfl, fun digits n h ↦ ?_⟩
    rw [List.prefix_nil.mp h.1] at h
    cases h.2.1
  | cons c text =>
    by_cases hc : c = 48
    · subst hc
      right
      by_cases hhex : IsHex text
      · obtain ⟨x, c, text, rfl, hx, hc⟩ := hhex
        obtain ⟨digits, hbegins⟩ := @beginsWith_hex text x c hx hc
        refine ⟨digits, _, hbegins, ?_⟩
        rw [simple_strtoul, List.head?_cons, if_pos rfl, List.tail_cons, strtoul_zero, if_pos ⟨hx, hc⟩]
      · obtain ⟨digits, hbegins⟩ := beginsWith_octal hhex
        refine ⟨digits, _, hbegins, ?_⟩
        rw [simple_strtoul, List.head?_cons, if_pos rfl, List.tail_cons, strtoul_zero_octal hhex]
    · have hhead : (c :: text).head? ≠ some 48 := fun h ↦ hc (Option.some.inj h)
      rw [simple_strtoul, if_neg hhead]
      rcases beginsWith_decimal hc with ⟨hzero, hnone⟩ | ⟨digits, hbegins⟩
      · rw [hzero]
        exact Or.inl ⟨rfl, hnone⟩
      · exact Or.inr ⟨digits, _, hbegins, rfl⟩

/-- `simple_strtoul` takes the number that a value begins with, modulo `2 ^ 32`. -/
theorem BeginsWith.simple_strtoul_eq (h : BeginsWith value digits n) :
    simple_strtoul value = BitVec.ofNat 32 n := by
  rcases @beginsWith_strtoul value with ⟨_, hnone⟩ | ⟨digits', n', h', hvalue⟩
  · exact absurd h (hnone digits n)
  · rw [(h.unique h').2]
    exact hvalue

end BeginsWith

/-! ## One item -/

/-- What an item assigns to the field for a key. -/
def assigned (key item : List UInt8) : Option (BitVec 32) :=
  if ((cut 61 item).1.take 5).map tolower = key then option_size (cut 61 item).2 else none

theorem option_size_some (value : List UInt8) : option_size (some value) =
    if 0 < (simple_strtoul value).toInt then some (simple_strtoul value) else none := by
  cases value with
  | nil => rfl
  | cons c value => rfl

theorem option_size_ne_zero {value : Option (List UInt8)} {size : BitVec 32}
    (h : option_size value = some size) : size ≠ 0 := by
  rintro rfl
  match value, h with
  | some value, h =>
    rw [option_size_some] at h
    split at h
    · rename_i hpos
      rw [Option.some.inj h] at hpos
      exact absurd hpos (by decide)
    · cases h

/-- An item assigns to each field on its own. -/
theorem parse_item_eq (sfs_sb : SbInfo) (item : List UInt8) : parse_item sfs_sb item =
    ⟨(assigned rsize_key item).getD sfs_sb.rsize, (assigned wsize_key item).getD sfs_sb.wsize⟩ := by
  have hr : strnicmp (cut 61 item).1 rsize_key 5 = 0 ↔ _ :=
    strnicmp_eq_zero_iff (cut 61 item).1 rsize_key (by decide) (by decide)
  have hw : strnicmp (cut 61 item).1 wsize_key 5 = 0 ↔ _ :=
    strnicmp_eq_zero_iff (cut 61 item).1 wsize_key (by decide) (by decide)
  have hne : rsize_key ≠ wsize_key := by decide
  rw [parse_item]
  by_cases hnil : item = []
  · rw [if_pos hnil, hnil]
    rfl
  · rw [if_neg hnil]
    simp only [assigned]
    by_cases hkey : ((cut 61 item).1.take 5).map tolower = rsize_key
    · rw [if_pos (hr.mpr hkey), if_pos hkey, if_neg fun h ↦ hne (hkey.symm.trans h)]
      cases option_size (cut 61 item).2 with
      | none => rfl
      | some size => rfl
    · rw [if_neg fun h ↦ hkey (hr.mp h), if_neg hkey]
      by_cases hkey' : ((cut 61 item).1.take 5).map tolower = wsize_key
      · rw [if_pos (hw.mpr hkey'), if_pos hkey']
        cases option_size (cut 61 item).2 with
        | none => rfl
        | some size => rfl
      · rw [if_neg fun h ↦ hkey' (hw.mp h), if_neg hkey']
        rfl

theorem IsOption.assigned {key item : List UInt8} (hkey : key.length = 5) {v : Nat}
    (h : IsOption key item v) : assigned key item = some (BitVec.ofNat 32 v) := by
  obtain ⟨name, value, rfl, heq, rfl, hv, hlo, hhi⟩ := h
  rw [List.length_map] at hkey
  have hint : (BitVec.ofNat 32 v).toInt = v := by
    rw [BitVec.toInt_eq_toNat_of_lt, BitVec.toNat_ofNat, Nat.mod_eq_of_lt (by omega)]
    rw [BitVec.toNat_ofNat]
    omega
  rw [Samplefs.assigned, cut_append value heq]
  simp only
  rw [List.take_of_length_le (Nat.le_of_eq hkey), if_pos rfl, option_size_some,
    (beginsWith_whole hv).simple_strtoul_eq, hint, if_pos (by omega)]

-- The low 32 bits of a number, as an `int`.
theorem toInt_ofNat_pos_iff (n : Nat) :
    0 < (BitVec.ofNat 32 n).toInt ↔ 1 ≤ n % 2 ^ 32 ∧ n % 2 ^ 32 < 2 ^ 31 := by
  rw [BitVec.toInt_eq_toNat_cond, BitVec.toNat_ofNat]
  split <;> omega

/-- `SoundFor` says that only options assign. -/
theorem soundFor_iff {key item : List UInt8} :
    SoundFor key item ↔ ((∀ v, ¬ IsOption key item v) → assigned key item = none) := by
  constructor
  · intro h hno
    by_contra hsome
    obtain ⟨size, hsize⟩ := Option.ne_none_iff_exists'.mp hsome
    rw [assigned] at hsize
    split at hsize
    · rename_i hkey
      cases hcut : (cut 61 item).2 with
      | none =>
        rw [hcut] at hsize
        cases hsize
      | some value =>
        obtain ⟨hitem, heq⟩ := cut_of_some hcut
        rw [hcut, option_size_some] at hsize
        split at hsize
        · rename_i hpos
          rcases @beginsWith_strtoul value with ⟨hzero, _⟩ | ⟨digits, n, hbegins, hvalue⟩
          · rw [hzero] at hpos
            cases hpos
          · rw [hvalue, toInt_ofNat_pos_iff] at hpos
            obtain ⟨hname, rfl, hlt⟩ := h _ value digits n hitem heq hkey hbegins hpos.1 hpos.2
            exact hno n ⟨_, _, hitem, heq, hname, hbegins.2.1, by omega, hlt⟩
        · cases hsize
    · cases hsize
  · rintro h name value digits n rfl heq hkey hbegins hlo hhi
    by_cases hno : ∀ v, ¬ IsOption key (name ++ 61 :: value) v
    · have hnone := h hno
      rw [assigned, cut_append value heq, if_pos hkey, option_size_some, hbegins.simple_strtoul_eq,
        if_pos ((toInt_ofNat_pos_iff n).mpr ⟨hlo, hhi⟩)] at hnone
      cases hnone
    · obtain ⟨v, hv⟩ := not_forall_not.mp hno
      obtain ⟨name', value', hitem, heq', hname, hwhole, _, hlt⟩ := hv
      have hcut := cut_append value heq
      rw [hitem, cut_append value' heq'] at hcut
      cases hcut
      obtain ⟨rfl, rfl⟩ := hbegins.unique (beginsWith_whole hwhole)
      exact ⟨hname, rfl, hlt⟩

/-! ## All of the items -/

theorem followsLast_foldl {key : List UInt8} (field : SbInfo → BitVec 32)
    (hfield : ∀ sfs_sb item, field (parse_item sfs_sb item) =
      (assigned key item).getD (field sfs_sb)) (hkey : key.length = 5) {items : List (List UInt8)}
    (hsound : ∀ item ∈ items, SoundFor key item) (sfs_sb : SbInfo) :
    FollowsLast key items (field sfs_sb) (field (items.foldl parse_item sfs_sb)) := by
  have hkeep : ∀ (l : List (List UInt8)) (s : SbInfo), (∀ i ∈ l, i ∈ items) →
      (∀ i ∈ l, ∀ w, ¬ IsOption key i w) → field (l.foldl parse_item s) = field s := by
    intro l s hl hno
    induction l generalizing s with
    | nil => rfl
    | cons i l ih =>
      rw [List.forall_mem_cons] at hl hno
      rw [List.foldl_cons, ih _ hl.2 hno.2, hfield, soundFor_iff.mp (hsound i hl.1) hno.1,
        Option.getD_none]
  constructor
  · rintro pre item post v rfl hitem hpost
    rw [List.foldl_append, List.foldl_cons, hkeep post _ (fun i hi ↦ by simp [hi]) hpost, hfield,
      hitem.assigned hkey, Option.getD_some]
  · intro hno
    exact hkeep items sfs_sb (fun _ hi ↦ hi) hno

theorem parse_options_eq (options : Option (List UInt8)) (sfs_sb : SbInfo) :
    samplefs_parse_mount_options options sfs_sb = (items options).foldl parse_item sfs_sb := by
  cases options with
  | none => rfl
  | some options => exact parse_loop_eq sfs_sb options

-- An item has one name, so it is an option for one key at most.
theorem not_isOption_of_assigned {key item : List UInt8} {size : BitVec 32} (key' : List UInt8)
    (hne : key ≠ key') (hkey' : key'.length = 5) (h : assigned key item = some size) :
    ∀ v, ¬ IsOption key' item v := by
  intro v hv
  have hother := hv.assigned hkey'
  rw [assigned] at h hother
  split at h
  · rename_i hkey
    rw [if_neg fun he ↦ hne (hkey.symm.trans he)] at hother
    cases hother
  · cases h

theorem assigned_ne_zero {key item : List UInt8} {size : BitVec 32}
    (h : assigned key item = some size) : size ≠ 0 := by
  rw [assigned] at h
  split at h
  · exact option_size_ne_zero h
  · cases h

-- An item that assigns has an effect on fields that are 0.
theorem ParsedByGrammar.assigned_eq_none {options : Option (List UInt8)} (h : ParsedByGrammar options)
    {item : List UInt8} (hitem : item ∈ items options) (hr : ∀ v, ¬ IsOption rsize_key item v)
    (hw : ∀ v, ¬ IsOption wsize_key item v) :
    assigned rsize_key item = none ∧ assigned wsize_key item = none := by
  have hzero : ∀ key, (assigned key item).getD 0 = 0 → assigned key item = none := by
    intro key hkey
    by_contra hsome
    obtain ⟨size, hsize⟩ := Option.ne_none_iff_exists'.mp hsome
    rw [hsize] at hkey
    exact assigned_ne_zero hsize hkey
  have hsame := h.2 item hitem hr hw ⟨0, 0⟩
  rw [parse_item_eq, SbInfo.mk.injEq] at hsame
  exact ⟨hzero _ hsame.1, hzero _ hsame.2⟩

theorem ParsedByGrammar.sound {options : Option (List UInt8)} (h : ParsedByGrammar options) :
    ∀ item ∈ items options, SoundFor rsize_key item ∧ SoundFor wsize_key item := by
  intro item hitem
  simp only [soundFor_iff]
  constructor
  · intro hno
    by_contra hsome
    obtain ⟨size, hsize⟩ := Option.ne_none_iff_exists'.mp hsome
    have hother := not_isOption_of_assigned wsize_key (by decide) rfl hsize
    exact hsome (h.assigned_eq_none hitem hno hother).1
  · intro hno
    by_contra hsome
    obtain ⟨size, hsize⟩ := Option.ne_none_iff_exists'.mp hsome
    have hother := not_isOption_of_assigned rsize_key (by decide) rfl hsize
    exact hsome (h.assigned_eq_none hitem hother hno).2

/-- The options are parsed by the grammar exactly if, in every item whose name begins with a key and whose
value begins with a number that is positive as an `int`, the name is the key, the number is the whole
value and it is below `2 ^ 31`. -/
theorem parsed_by_grammar_iff (options : Option (List UInt8)) : ParsedByGrammar options ↔
    ∀ item ∈ items options, SoundFor rsize_key item ∧ SoundFor wsize_key item := by
  constructor
  · exact ParsedByGrammar.sound
  · intro h
    refine ⟨fun sfs_sb ↦ ?_, fun item hitem hr hw sfs_sb ↦ ?_⟩
    · rw [parse_options_eq]
      exact ⟨followsLast_foldl SbInfo.rsize (fun s i ↦ by rw [parse_item_eq]) rfl
          (fun i hi ↦ (h i hi).1) sfs_sb,
        followsLast_foldl SbInfo.wsize (fun s i ↦ by rw [parse_item_eq]) rfl
          (fun i hi ↦ (h i hi).2) sfs_sb⟩
    · rw [parse_item_eq, soundFor_iff.mp (h item hitem).1 hr, soundFor_iff.mp (h item hitem).2 hw]
      rfl

-- An item that assigns to `rsize` although it is no option.
theorem not_parsedByGrammar {item name value : List UInt8} (size : BitVec 32)
    (hcomma : 44 ∉ item) (hcut : cut 61 item = (name, some value))
    (hsize : assigned rsize_key item = some size)
    (hno : name.map tolower = rsize_key → ∀ v, cNotation value = some v → 2 ^ 31 ≤ v) :
    ¬ ParsedByGrammar (some item) := by
  intro h
  have hmem : item ∈ items (some item) := by
    rw [items, List.splitOn_eq_singleton hcomma]
    exact List.mem_singleton_self item
  have hnone := soundFor_iff.mp (h.sound item hmem).1
  rw [hsize] at hnone
  refine Option.some_ne_none size (hnone ?_)
  rintro v ⟨name', value', rfl, heq, hname, hv, _, hhi⟩
  rw [cut_append value' heq] at hcut
  cases hcut
  exact absurd hhi (Nat.not_lt.mpr (hno hname v hv))

/-- `rsizefoo=3`, `rsize=12abc` and `rsize=4294967297` set `rsize`. -/
theorem malformed_options_accepted :
    ¬ ParsedByGrammar (some [114, 115, 105, 122, 101, 102, 111, 111, 61, 51]) ∧
    ¬ ParsedByGrammar (some [114, 115, 105, 122, 101, 61, 49, 50, 97, 98, 99]) ∧
    ¬ ParsedByGrammar (some [114, 115, 105, 122, 101, 61, 52, 50, 57, 52, 57, 54, 55, 50, 57, 55]) := by
  refine ⟨?_, ?_, ?_⟩
  · exact not_parsedByGrammar 3 (by decide) rfl (by decide) fun h ↦ absurd h (by decide)
  · refine not_parsedByGrammar 12 (by decide) rfl (by decide) fun _ v hv ↦ ?_
    cases hv
  · refine not_parsedByGrammar 1 (by decide) rfl (by decide) fun _ v hv ↦ ?_
    have hvalue : cNotation [52, 50, 57, 52, 57, 54, 55, 50, 57, 55] = some 4294967297 := by decide
    rw [← Option.some.inj (hvalue.symm.trans hv)]
    decide

end OK210Drivers.Samplefs
