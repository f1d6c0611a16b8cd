import OK210Drivers.RamDisk.Device

/-!
# The boot records of the RAM disk

`partition.c` writes a master boot record and the boot records of three logical partitions into the
memory of the disk.  Values are laid out as on the board: 32-bit `unsigned long`, little endian,
bit-fields from the lowest bit on.
-/

open Library

namespace OK210Drivers.RamDisk

def MBR_SIZE : Nat := 512
def MBR_DISK_SIGNATURE_OFFSET : Nat := 440
def PARTITION_TABLE_OFFSET : Nat := 446
def PARTITION_ENTRY_SIZE : Nat := 16
def PARTITION_TABLE_SIZE : Nat := 64
def MBR_SIGNATURE_OFFSET : Nat := 510
def MBR_SIGNATURE : BitVec 16 := 0xAA55#16
def BR_SIZE : Nat := 512
def BR_SIGNATURE_OFFSET : Nat := 510
def BR_SIGNATURE : BitVec 16 := 0xAA55#16

/-- `PartEntry`.  A field that an initializer leaves out is 0. -/
structure PartEntry where
  boot_type : BitVec 8 := 0
  start_head : BitVec 8 := 0
  start_sec : BitVec 6 := 0
  start_cyl_hi : BitVec 2 := 0
  start_cyl : BitVec 8 := 0
  part_type : BitVec 8 := 0
  end_head : BitVec 8 := 0
  end_sec : BitVec 6 := 0
  end_cyl_hi : BitVec 2 := 0
  end_cyl : BitVec 8 := 0
  abs_start_sec : BitVec 32 := 0
  sec_in_part : BitVec 32 := 0
  deriving DecidableEq

/-- The `n` lowest bytes of a value, the lowest first. -/
def leBytes {w : Nat} (n : Nat) (x : BitVec w) : List UInt8 :=
  (List.range n).map fun i ↦ UInt8.ofBitVec (x.extractLsb' (8 * i) 8)

def PartEntry.bytes (p : PartEntry) : List UInt8 :=
  [p.boot_type, p.start_head, p.start_cyl_hi ++ p.start_sec, p.start_cyl, p.part_type, p.end_head,
    p.end_cyl_hi ++ p.end_sec, p.end_cyl].map UInt8.ofBitVec ++
    leBytes 4 p.abs_start_sec ++ leBytes 4 p.sec_in_part

abbrev PartTable := Vector PartEntry 4

def PartTable.bytes (t : PartTable) : List UInt8 := t.toList.flatMap PartEntry.bytes

def def_part_table : PartTable :=
  #v[{ boot_type := 0x00, start_head := 0x00, start_sec := 0x2, start_cyl := 0x00, part_type := 0x83,
       end_head := 0x00, end_sec := 0x20, end_cyl := 0x09, abs_start_sec := 0x00000001,
       sec_in_part := 0x0000013F },
     { boot_type := 0x00, start_head := 0x00, start_sec := 0x1, start_cyl := 0x0A, part_type := 0x05,
       end_head := 0x00, end_sec := 0x20, end_cyl := 0x13, abs_start_sec := 0x00000140,
       sec_in_part := 0x00000140 },
     { boot_type := 0x00, start_head := 0x00, start_sec := 0x1, start_cyl := 0x14, part_type := 0x83,
       end_head := 0x00, end_sec := 0x20, end_cyl := 0x1F, abs_start_sec := 0x00000280,
       sec_in_part := 0x00000180 },
     {}]

def def_log_part_br_cyl : List Nat := [0x0A, 0x0E, 0x12]

def def_log_part_table : List PartTable :=
  [#v[{ boot_type := 0x00, start_head := 0x00, start_sec := 0x2, start_cyl := 0x0A, part_type := 0x83,
        end_head := 0x00, end_sec := 0x20, end_cyl := 0x0D, abs_start_sec := 0x00000001,
        sec_in_part := 0x0000007F },
      { boot_type := 0x00, start_head := 0x00, start_sec := 0x1, start_cyl := 0x0E, part_type := 0x05,
        end_head := 0x00, end_sec := 0x20, end_cyl := 0x11, abs_start_sec := 0x00000080,
        sec_in_part := 0x00000080 },
      {}, {}],
   #v[{ boot_type := 0x00, start_head := 0x00, start_sec := 0x2, start_cyl := 0x0E, part_type := 0x83,
        end_head := 0x00, end_sec := 0x20, end_cyl := 0x11, abs_start_sec := 0x00000001,
        sec_in_part := 0x0000007F },
      { boot_type := 0x00, start_head := 0x00, start_sec := 0x1, start_cyl := 0x12, part_type := 0x05,
        end_head := 0x00, end_sec := 0x20, end_cyl := 0x13, abs_start_sec := 0x00000100,
        sec_in_part := 0x00000040 },
      {}, {}],
   #v[{ boot_type := 0x00, start_head := 0x00, start_sec := 0x2, start_cyl := 0x12, part_type := 0x83,
        end_head := 0x00, end_sec := 0x20, end_cyl := 0x13, abs_start_sec := 0x00000001,
        sec_in_part := 0x0000003F },
      {}, {}, {}]]

def copy_mbr (disk : Mem UInt8) : Mem UInt8 :=
  let disk := disk.store 0 (List.replicate MBR_SIZE 0)
  let disk := disk.store MBR_DISK_SIGNATURE_OFFSET (leBytes 4 0x36E5756D#32)
  let disk := disk.store PARTITION_TABLE_OFFSET def_part_table.bytes
  disk.store MBR_SIGNATURE_OFFSET (leBytes 2 MBR_SIGNATURE)

def copy_br (disk : Mem UInt8) (start_cylinder : Nat) (part_table : PartTable) : Mem UInt8 :=
  let base := start_cylinder * 32 * RB_SECTOR_SIZE
  let disk := disk.store base (List.replicate BR_SIZE 0)
  let disk := disk.store (base + PARTITION_TABLE_OFFSET) part_table.bytes
  disk.store (base + BR_SIGNATURE_OFFSET) (leBytes 2 BR_SIGNATURE)

-- The loop of `copy_mbr_n_br` over the logical partitions.
def copy_brs (disk : Mem UInt8) (brs : List (Nat × PartTable)) : Mem UInt8 :=
  brs.foldl (fun disk br ↦ copy_br disk br.1 br.2) disk

def copy_mbr_n_br (disk : Mem UInt8) : Mem UInt8 :=
  copy_brs (copy_mbr disk) (def_log_part_br_cyl.zip def_log_part_table)

@[simp] theorem leBytes_length {w : Nat} (n : Nat) (x : BitVec w) : (leBytes n x).length = n := by
  simp [leBytes]

@[simp] theorem PartEntry.bytes_length (p : PartEntry) : p.bytes.length = PARTITION_ENTRY_SIZE := by
  simp [PartEntry.bytes, PARTITION_ENTRY_SIZE]

@[simp] theorem PartTable.bytes_length (t : PartTable) : t.bytes.length = PARTITION_TABLE_SIZE := by
  rw [PartTable.bytes, List.length_flatMap, List.map_congr_left fun p _ ↦ p.bytes_length,
    List.map_const', List.sum_replicate_nat, Vector.length_toList]
  rfl

end OK210Drivers.RamDisk
