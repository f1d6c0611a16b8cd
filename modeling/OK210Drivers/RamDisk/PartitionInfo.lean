import Mathlib.Data.Nat.Digits.Defs
import OK210Drivers.Library.Mem

/-!
# The partition table printer

`partition_info.c` reads the first sector of a device file into a structure of its own and prints the
four entries twice: as they are stored, and with the CHS addresses computed again from the sectors.
`unsigned long` has 32 bits, and the structures have no holes.
-/

open Library

namespace OK210Drivers.PartitionInfo

def MBR_DISK_SIGNATURE_OFFSET : Nat := 440
def PARTITION_ENTRY_SIZE : Nat := 16
def PARTITION_TABLE_SIZE : Nat := 64

/-- The little-endian number in the `n` bytes at offset `p`. -/
def readLe (m : Mem UInt8) (p n : Nat) : Nat :=
  Nat.ofDigits 256 ((m.load p n).map UInt8.toNat)

structure PartEntry where
  boot_type : BitVec 8
  start_head : BitVec 8
  start_sec : BitVec 6
  start_cyl_hi : BitVec 2
  start_cyl : BitVec 8
  part_type : BitVec 8
  end_head : BitVec 8
  end_sec : BitVec 6
  end_cyl_hi : BitVec 2
  end_cyl : BitVec 8
  abs_start_sec : BitVec 32
  sec_in_part : BitVec 32
  deriving DecidableEq

-- `p[i]` of an entry pointer: bit-fields from the lowest bit on.
def PartEntry.read (m : Mem UInt8) (p : Nat) : PartEntry where
  boot_type := (m p).toBitVec
  start_head := (m (p + 1)).toBitVec
  start_sec := (m (p + 2)).toBitVec.extractLsb' 0 6
  start_cyl_hi := (m (p + 2)).toBitVec.extractLsb' 6 2
  start_cyl := (m (p + 3)).toBitVec
  part_type := (m (p + 4)).toBitVec
  end_head := (m (p + 5)).toBitVec
  end_sec := (m (p + 6)).toBitVec.extractLsb' 0 6
  end_cyl_hi := (m (p + 6)).toBitVec.extractLsb' 6 2
  end_cyl := (m (p + 7)).toBitVec
  abs_start_sec := BitVec.ofNat 32 (readLe m (p + 8) 4)
  sec_in_part := BitVec.ofNat 32 (readLe m (p + 12) 4)

/-- `pt` is what is found from the array of that name on. -/
structure MBR where
  boot_code : List UInt8
  disk_signature : BitVec 32
  pad : BitVec 16
  pt : Mem UInt8
  signature : BitVec 16

-- `read(fd, &m, sizeof(m))`, from the bytes of the sector.
def MBR.read (sector : Mem UInt8) : MBR :=
  let disk_signature := MBR_DISK_SIGNATURE_OFFSET
  let pad := disk_signature + 4
  let pt := pad + 2
  let signature := pt + PARTITION_TABLE_SIZE
  { boot_code := sector.load 0 MBR_DISK_SIGNATURE_OFFSET
    disk_signature := BitVec.ofNat 32 (readLe sector disk_signature 4)
    pad := BitVec.ofNat 16 (readLe sector pad 2)
    pt := fun i ↦ sector (pt + i)
    signature := BitVec.ofNat 16 (readLe sector signature 2) }

-- `p[i]`, where `p` is `(PartEntry *)(m.pt)`.
def MBR.entry (m : MBR) (i : Nat) : PartEntry := PartEntry.read m.pt (i * PARTITION_ENTRY_SIZE)

/-- A printed address, as (head/cylinder/sector). -/
structure Chs where
  head : BitVec 32
  cylinder : BitVec 32
  sector : BitVec 32
  deriving DecidableEq

/-- A printed line, after the number of the entry. -/
structure Line where
  active : Bool
  start : Chs
  stop : Chs
  part_type : BitVec 8
  abs_start_sec : BitVec 32
  sec_in_part : BitVec 32
  deriving DecidableEq

-- `1 + ((cyl_hi << 8) | cyl)`
def printed_cylinder (cyl_hi : BitVec 2) (cyl : BitVec 8) : BitVec 32 :=
  1 + (cyl_hi.setWidth 32 <<< 8 ||| cyl.setWidth 32)

def print_computed (sector : BitVec 32) : Chs :=
  let sectors := sector % 63 + 1
  let tracks := sector / 63
  let cyls := tracks / 255 + 1
  let heads := tracks % 255
  ⟨heads, cyls, sectors⟩

-- A line of the first table.
def PartEntry.line (p : PartEntry) : Line where
  active := p.boot_type &&& 0x80 ≠ 0
  start := ⟨p.start_head.setWidth 32, printed_cylinder p.start_cyl_hi p.start_cyl,
    p.start_sec.setWidth 32⟩
  stop := ⟨p.end_head.setWidth 32, printed_cylinder p.end_cyl_hi p.end_cyl,
    p.end_sec.setWidth 32⟩
  part_type := p.part_type
  abs_start_sec := p.abs_start_sec
  sec_in_part := p.sec_in_part

-- A line of the second table.
def PartEntry.recomputed (p : PartEntry) : Line where
  active := p.boot_type &&& 0x80 ≠ 0
  start := print_computed p.abs_start_sec
  stop := print_computed (p.abs_start_sec + p.sec_in_part - 1)
  part_type := p.part_type
  abs_start_sec := p.abs_start_sec
  sec_in_part := p.sec_in_part

-- The two tables that `main` prints for the first sector of a device.
def main (sector : Mem UInt8) : List Line × List Line :=
  let m := MBR.read sector
  let entries := (List.range 4).map m.entry
  (entries.map PartEntry.line, entries.map PartEntry.recomputed)

/-! ## Little-endian numbers -/

theorem ofDigits_bytes (x n : Nat) :
    Nat.ofDigits 256 ((List.range n).map fun i ↦ x / 256 ^ i % 256) = x % 256 ^ n := by
  induction n generalizing x with
  | zero => simp [Nat.mod_one]
  | succ n ih =>
    have hshift : (fun i ↦ x / 256 ^ (i + 1) % 256) = fun i ↦ x / 256 / 256 ^ i % 256 := by
      funext i
      rw [Nat.div_div_eq_div_mul, Nat.pow_succ']
    rw [List.range_succ_eq_map, List.map_cons, List.map_map, Nat.ofDigits_cons]
    show x / 256 ^ 0 % 256 + 256 * Nat.ofDigits 256 ((List.range n).map
      (fun i ↦ x / 256 ^ (i + 1) % 256)) = _
    rw [hshift, ih, Nat.pow_zero, Nat.div_one, Nat.pow_succ', Nat.mod_mul]

/-! ## Computed addresses -/

/-- The sector that an address denotes. -/
def Chs.lba (c : Chs) : Nat :=
  ((c.cylinder.toNat - 1) * 255 + c.head.toNat) * 63 + (c.sector.toNat - 1)

/-- The parts are in the range of the geometry. -/
def Chs.Valid (c : Chs) : Prop :=
  c.head.toNat < 255 ∧ 1 ≤ c.cylinder.toNat ∧ 1 ≤ c.sector.toNat ∧ c.sector.toNat ≤ 63

theorem print_computed_toNat (sector : BitVec 32) :
    (print_computed sector).head.toNat = sector.toNat / 63 % 255 ∧
    (print_computed sector).cylinder.toNat = sector.toNat / 63 / 255 + 1 ∧
    (print_computed sector).sector.toNat = sector.toNat % 63 + 1 := by
  have hlt := sector.isLt
  refine ⟨?_, ?_, ?_⟩
  · simp only [print_computed, BitVec.toNat_umod, BitVec.toNat_udiv]
    rfl
  · simp only [print_computed, BitVec.toNat_add, BitVec.toNat_udiv]
    show (sector.toNat / 63 / 255 + 1) % 2 ^ 32 = _
    omega
  · simp only [print_computed, BitVec.toNat_add, BitVec.toNat_umod]
    show (sector.toNat % 63 + 1) % 2 ^ 32 = _
    omega

theorem print_computed_valid (sector : BitVec 32) : (print_computed sector).Valid := by
  obtain ⟨hhead, hcyl, hsec⟩ := print_computed_toNat sector
  rw [Chs.Valid, hhead, hcyl, hsec]
  omega

/-- The address that is computed for a sector denotes it. -/
theorem print_computed_lba (sector : BitVec 32) : (print_computed sector).lba = sector.toNat := by
  obtain ⟨hhead, hcyl, hsec⟩ := print_computed_toNat sector
  rw [Chs.lba, hhead, hcyl, hsec]
  omega

/-- The second table is right about an entry: both addresses are in range and denote the sectors they
were computed for, and the end is from the start on at most `sec_in_part - 1` sectors away. -/
def DenotesPartition (p : PartEntry) : Prop :=
  let l := p.recomputed
  l.start.Valid ∧ l.stop.Valid ∧ l.start.lba = p.abs_start_sec.toNat ∧
    l.stop.lba = (p.abs_start_sec + p.sec_in_part - 1).toNat ∧
    l.start.lba ≤ l.stop.lba ∧ l.stop.lba + 1 ≤ l.start.lba + p.sec_in_part.toNat

-- Only the order of the two sectors is in question.
theorem denotesPartition_order (p : PartEntry) : DenotesPartition p ↔
    p.abs_start_sec.toNat ≤ (p.abs_start_sec + p.sec_in_part - 1).toNat ∧
      (p.abs_start_sec + p.sec_in_part - 1).toNat + 1 ≤
        p.abs_start_sec.toNat + p.sec_in_part.toNat := by
  simp only [DenotesPartition, PartEntry.recomputed, print_computed_valid, print_computed_lba,
    true_and]

/-- The second table is right exactly about the entries in use whose last sector has a 32-bit
number. -/
theorem denotes_partition_iff (p : PartEntry) : DenotesPartition p ↔
    1 ≤ p.sec_in_part.toNat ∧ p.abs_start_sec.toNat + p.sec_in_part.toNat ≤ 2 ^ 32 := by
  have habs := p.abs_start_sec.isLt
  have hsec := p.sec_in_part.isLt
  have hend : (p.abs_start_sec + p.sec_in_part - 1).toNat =
      (p.abs_start_sec.toNat + p.sec_in_part.toNat + (2 ^ 32 - 1)) % 2 ^ 32 := by
    rw [BitVec.toNat_sub, BitVec.toNat_add]
    show (2 ^ 32 - 1 + _) % 2 ^ 32 = _
    omega
  rw [denotesPartition_order, hend]
  omega

-- An entry that is not in use: the end is printed for sector 2^32 - 1.
theorem unused_not_denoted : ¬ DenotesPartition ⟨0, 0, 0, 0, 0, 0, 0, 0, 0, 0, 0, 0⟩ := by
  rw [denotesPartition_order]
  decide

end OK210Drivers.PartitionInfo
