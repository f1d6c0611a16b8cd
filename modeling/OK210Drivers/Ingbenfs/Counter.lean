import Mathlib.Algebra.Group.Int.Defs
import Mathlib.Algebra.Group.Nat.Defs
import Mathlib.Data.Nat.Basic
import Mathlib.Logic.Function.Basic

/-!
# The counter files of ingbenfs

A counter file shows the decimal text of an `atomic_t`.  A read at the start of the file counts up; a
read further on works out again what the read at the start must have shown.  A write sets the counter.
-/

namespace OK210Drivers.Ingbenfs

def TMPSIZE : Nat := 20
def EFAULT : Int := 14
def EINVAL : Int := 22

/-- What `"%d\n"` makes of an `int`. -/
def format_d (v : BitVec 32) : List UInt8 :=
  (if v.toInt < 0 then [45] else []) ++ (Nat.toDigits 10 v.toInt.natAbs).map Char.toUInt8 ++ [10]

/-- `snprintf(tmp, size, ..)`: the characters in `tmp`, without the null behind them, and the length
of the whole text. -/
def snprintf (size : Nat) (text : List UInt8) : List UInt8 × Nat :=
  (text.take (size - 1), text.length)

/-- The return value, what arrives in the caller's buffer, the counter and the file offset. -/
structure ReadResult where
  ret : Int
  out : List UInt8
  counter : BitVec 32
  offset : Nat
  deriving DecidableEq

/-- `ingbenfs_read_file(filp, buf, count, offset)`; `left` is the result of `copy_to_user`. -/
def ingbenfs_read_file (counter : BitVec 32) (offset count left : Nat) : ReadResult :=
  let v := if 0 < offset then counter - 1 else counter
  let counter := if 0 < offset then counter else counter + 1
  let tmp := (snprintf TMPSIZE (format_d v)).1
  let len := (snprintf TMPSIZE (format_d v)).2
  if offset > len then ⟨0, [], counter, offset⟩
  else
    let count := if count > len - offset then len - offset else count
    if left ≠ 0 then ⟨-EFAULT, [], counter, offset⟩
    else ⟨count, (tmp.drop offset).take count, counter, offset + count⟩

-- The loop of `simple_strtoul(cp, endp, 10)`.
def strtoul_loop (result : Nat) : List UInt8 → Nat
  | [] => result
  | c :: cp =>
    if 48 ≤ c ∧ c ≤ 57 then strtoul_loop (result * 10 + (c.toNat - 48)) cp else result

def simple_strtoul (cp : List UInt8) : BitVec 32 := BitVec.ofNat 32 (strtoul_loop 0 cp)

/-- `simple_strtol(cp, NULL, 10)`, with a 32-bit `long`. -/
def simple_strtol (cp : List UInt8) : BitVec 32 :=
  match cp with
  | 45 :: cp => -simple_strtoul cp
  | cp => simple_strtoul cp

/-- `ingbenfs_write_file(filp, buf, count, offset)` with the `count` bytes of `buf`; `left` is the
result of `copy_from_user`. -/
def ingbenfs_write_file (counter : BitVec 32) (offset : Nat) (buf : List UInt8) (left : Nat) :
    Int × BitVec 32 :=
  if offset ≠ 0 then (-EINVAL, counter)
  else if buf.length ≥ TMPSIZE then (-EINVAL, counter)
  else if left ≠ 0 then (-EFAULT, counter)
  else
    let tmp := buf ++ List.replicate (TMPSIZE - buf.length) 0
    (buf.length, simple_strtol tmp)

/-- The counter and the offset of every open file on it. -/
structure State where
  counter : BitVec 32
  offset : Nat → Nat

inductive Call
  | open_
  | read (count left : Nat)
  | write (buf : List UInt8) (left : Nat)

/-- A call of a client with the counter that it finds, its return value and the bytes it delivers. -/
structure Event where
  client : Nat
  call : Call
  found : BitVec 32
  ret : Int
  out : List UInt8

inductive Step : State → Event → State → Prop
  | open_ {s : State} (c : Nat) :
      Step s ⟨c, .open_, s.counter, 0, []⟩ { s with offset := Function.update s.offset c 0 }
  | read {s : State} {r : ReadResult} (c count left : Nat) :
      ingbenfs_read_file s.counter (s.offset c) count left = r →
      Step s ⟨c, .read count left, s.counter, r.ret, r.out⟩
        ⟨r.counter, Function.update s.offset c r.offset⟩
  | write {s : State} {ret : Int} {counter : BitVec 32} (c : Nat) (buf : List UInt8) (left : Nat) :
      ingbenfs_write_file s.counter (s.offset c) buf left = (ret, counter) →
      Step s ⟨c, .write buf left, s.counter, ret, []⟩ { s with counter := counter }

/-- The value that a read at an offset shows. -/
def shownValue (counter : BitVec 32) (offset : Nat) : BitVec 32 :=
  if 0 < offset then counter - 1 else counter

section Text

variable {counter : BitVec 32} {offset count left : Nat}

-- The text of an `int` has at most ten digits, a sign and a newline.
theorem format_d_length_le (v : BitVec 32) : (format_d v).length ≤ 12 := by
  have habs : v.toInt.natAbs < 10 ^ 10 := by
    have hlo := BitVec.le_toInt v
    have hhi := BitVec.toInt_lt (x := v)
    omega
  have hdigits := (Nat.length_toDigits_le_iff (b := 10) (k := 10) (by decide) (by decide)).mpr habs
  unfold format_d
  rw [List.length_append, List.length_append, List.length_map, List.length_singleton]
  split
  · rw [List.length_singleton]
    omega
  · rw [List.length_nil]
    omega

theorem format_d_pos (v : BitVec 32) : 0 < (format_d v).length := by
  unfold format_d
  rw [List.length_append, List.length_singleton]
  exact Nat.succ_pos _

theorem snprintf_format_d (v : BitVec 32) :
    snprintf TMPSIZE (format_d v) = (format_d v, (format_d v).length) := by
  have hlen := format_d_length_le v
  unfold snprintf
  rw [List.take_of_length_le]
  show _ ≤ 19
  omega

/-- A read inside the text delivers the part of the text that it asks for, as far as there is one. -/
theorem ingbenfs_read_file_inside
    (h : offset ≤ (format_d (shownValue counter offset)).length) :
    let text := format_d (shownValue counter offset)
    let n := min count (text.length - offset)
    let counter' := if 0 < offset then counter else counter + 1
    ingbenfs_read_file counter offset count left =
      if left ≠ 0 then ⟨-EFAULT, [], counter', offset⟩
      else ⟨n, (text.drop offset).take n, counter', offset + n⟩ := by
  intro text n counter'
  have hn : (if count > text.length - offset then text.length - offset else count) = n := by
    split <;> omega
  have hsn : snprintf TMPSIZE (format_d (if 0 < offset then counter - 1 else counter)) =
      (text, text.length) := snprintf_format_d _
  have hin : ¬offset > text.length := Nat.not_lt.mpr h
  simp only [ingbenfs_read_file, hsn, hn, if_neg hin]
  rfl

/-- A read at the end of the text or behind it delivers nothing and leaves the offset. -/
theorem ingbenfs_read_file_behind (hpos : 0 < offset)
    (h : (format_d (counter - 1)).length ≤ offset) :
    (ingbenfs_read_file counter offset count left).out = [] ∧
      (ingbenfs_read_file counter offset count left).offset = offset := by
  unfold ingbenfs_read_file
  simp only [if_pos hpos, snprintf_format_d]
  by_cases hgt : offset > (format_d (counter - 1)).length
  · rw [if_pos hgt]
    exact ⟨rfl, rfl⟩
  · have hleft : (format_d (counter - 1)).length - offset = 0 := Nat.sub_eq_zero_of_le h
    have hcount : (if count > 0 then 0 else count) = 0 := by
      split
      · rfl
      · omega
    rw [if_neg hgt, hleft, hcount]
    split <;> exact ⟨rfl, rfl⟩

end Text

end OK210Drivers.Ingbenfs
