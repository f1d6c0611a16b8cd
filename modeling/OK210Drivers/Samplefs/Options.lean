import Mathlib.Algebra.Group.Nat.Defs
import Mathlib.Data.Nat.Basic
import Mathlib.Tactic.Common

/-!
# The mount options of samplefs

`samplefs_parse_mount_options` of the `2day` version cuts the options at commas and each of them at
its first equals sign.  A text is the list of its characters in front of the null; `unsigned long`
has 32 bits.
-/

namespace OK210Drivers.Samplefs

/-- `struct samplefs_sb_info`, as far as the options change it. -/
structure SbInfo where
  rsize : BitVec 32
  wsize : BitVec 32
  deriving DecidableEq

/-- The text in front of the first `c` and, if there is one, the text behind it. -/
def cut (c : UInt8) : List UInt8 → List UInt8 × Option (List UInt8)
  | [] => ([], none)
  | d :: s => if d = c then ([], some s) else (d :: (cut c s).1, (cut c s).2)

-- `strsep(&options, ",")`: the next item and what is left of the options.
def strsep (options : List UInt8) : List UInt8 × Option (List UInt8) := cut 44 options

def tolower (c : UInt8) : UInt8 := if 65 ≤ c ∧ c ≤ 90 then c + 32 else c

-- The kernel's `strnicmp(s1, s2, len)`; the head of an empty text is the null.
def strnicmp : List UInt8 → List UInt8 → Nat → Int
  | _, _, 0 => 0
  | s1, s2, len + 1 =>
    let c1 := s1.headD 0
    let c2 := s2.headD 0
    if c1 = 0 ∨ c2 = 0 then c1.toNat - c2.toNat
    else if tolower c1 ≠ tolower c2 then (tolower c1).toNat - (tolower c2).toNat
    else strnicmp s1.tail s2.tail len

/-- The value of a character that passes `isxdigit`. -/
def xdigit (c : UInt8) : Option Nat :=
  if 48 ≤ c ∧ c ≤ 57 then some (c.toNat - 48)
  else if 97 ≤ c ∧ c ≤ 102 then some (c.toNat - 87)
  else if 65 ≤ c ∧ c ≤ 70 then some (c.toNat - 55)
  else none

-- The digits of `simple_strtoul`, before they are reduced to an `unsigned long`.
def strtoul_loop (base result : Nat) : List UInt8 → Nat
  | [] => result
  | c :: cp =>
    match xdigit c with
    | some value => if value < base then strtoul_loop base (result * base + value) cp else result
    | none => result

-- What follows a leading `0`: octal digits, or `x` with hexadecimal digits.
def strtoul_zero : List UInt8 → Nat
  | c :: d :: cp =>
    if (c = 120 ∨ c = 88) ∧ (xdigit d).isSome then strtoul_loop 16 0 (d :: cp)
    else strtoul_loop 8 0 (c :: d :: cp)
  | cp => strtoul_loop 8 0 cp

-- `simple_strtoul(cp, &value, 0)`
def simple_strtoul (cp : List UInt8) : BitVec 32 :=
  BitVec.ofNat 32 (if cp.head? = some 48 then strtoul_zero cp.tail else strtoul_loop 10 0 cp)

def rsize_key : List UInt8 := [114, 115, 105, 122, 101]
def wsize_key : List UInt8 := [119, 115, 105, 122, 101]

/-- The `size` that is assigned, if any; an `int`. -/
def option_size : Option (List UInt8) → Option (BitVec 32)
  | none => none
  | some [] => none
  | some (c :: value) =>
    let size := simple_strtoul (c :: value)
    if 0 < size.toInt then some size else none

-- One turn of the loop.
def parse_item (sfs_sb : SbInfo) (data : List UInt8) : SbInfo :=
  if data = [] then sfs_sb
  else
    let name := (cut 61 data).1
    let value := (cut 61 data).2
    if strnicmp name rsize_key 5 = 0 then
      match option_size value with
      | some size => { sfs_sb with rsize := size }
      | none => sfs_sb
    else if strnicmp name wsize_key 5 = 0 then
      match option_size value with
      | some size => { sfs_sb with wsize := size }
      | none => sfs_sb
    else sfs_sb

theorem cut_length {c : UInt8} {s rest : List UInt8} (h : (cut c s).2 = some rest) :
    rest.length < s.length := by
  induction s with
  | nil => cases h
  | cons d s ih =>
    rw [cut] at h
    split at h
    · cases h
      exact Nat.lt_succ_self _
    · exact Nat.lt_succ_of_lt (ih h)

def parse_loop (sfs_sb : SbInfo) (options : List UInt8) : SbInfo :=
  match _h : (strsep options).2 with
  | none => parse_item sfs_sb (strsep options).1
  | some rest => parse_loop (parse_item sfs_sb (strsep options).1) rest
termination_by options.length
decreasing_by exact cut_length _h

def samplefs_parse_mount_options (options : Option (List UInt8)) (sfs_sb : SbInfo) : SbInfo :=
  match options with
  | none => sfs_sb
  | some options => parse_loop sfs_sb options

/-! ## Cutting -/

theorem cut_of_none {c : UInt8} {s : List UInt8} (h : (cut c s).2 = none) :
    (cut c s).1 = s ∧ c ∉ s := by
  induction s with
  | nil => exact ⟨rfl, List.not_mem_nil⟩
  | cons d s ih =>
    rw [cut] at h ⊢
    split at h
    · cases h
    · rename_i hd
      obtain ⟨hs, hc⟩ := ih h
      rw [if_neg hd]
      refine ⟨congrArg (d :: ·) hs, ?_⟩
      rw [List.mem_cons, not_or]
      exact ⟨fun he ↦ hd he.symm, hc⟩

theorem cut_of_some {c : UInt8} {s rest : List UInt8} (h : (cut c s).2 = some rest) :
    s = (cut c s).1 ++ c :: rest ∧ c ∉ (cut c s).1 := by
  induction s with
  | nil => cases h
  | cons d s ih =>
    rw [cut] at h ⊢
    split at h
    · rename_i hd
      cases h
      rw [if_pos hd, hd]
      exact ⟨rfl, List.not_mem_nil⟩
    · rename_i hd
      obtain ⟨hs, hc⟩ := ih h
      rw [if_neg hd]
      refine ⟨congrArg (d :: ·) hs, ?_⟩
      rw [List.mem_cons, not_or]
      exact ⟨fun he ↦ hd he.symm, hc⟩

/-- The loop of `strsep` takes the items between the commas one after the other. -/
theorem parse_loop_eq (sfs_sb : SbInfo) (options : List UInt8) :
    parse_loop sfs_sb options = (options.splitOn 44).foldl parse_item sfs_sb := by
  induction sfs_sb, options using parse_loop.induct with
  | case1 sfs_sb options h =>
    obtain ⟨hall, hcomma⟩ := cut_of_none h
    rw [parse_loop, List.splitOn_eq_singleton hcomma]
    split
    · rw [strsep, hall]
      rfl
    · rename_i hsome
      rw [h] at hsome
      cases hsome
  | case2 sfs_sb options rest h ih =>
    obtain ⟨hall, hcomma⟩ := cut_of_some h
    rw [parse_loop]
    split
    · rename_i hnone
      rw [h] at hnone
      cases hnone
    · rename_i rest' hrest
      cases h.symm.trans hrest
      rw [ih]
      conv_rhs => rw [hall, List.splitOn_append_cons_self_of_not_mem hcomma]
      rfl

end OK210Drivers.Samplefs
