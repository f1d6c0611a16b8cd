import Mathlib.Algebra.GroupWithZero.Nat
import OK210Drivers.Library.Mem

/-!
# The lab46 RAM disk

`ram_device.c` keeps the disk in one vmalloc'ed area and copies whole sectors in and out of it;
`ram_block.c` walks the segments of a block request over it.  A copy that leaves the area has no
result (`none`).
-/

open Library

namespace OK210Drivers.RamDisk

def RB_SECTOR_SIZE : Nat := 512
def RB_DEVICE_SIZE : Nat := 1024
def EIO : Int := 5

instance instNontrivialUInt8 : Nontrivial UInt8 := ⟨0, 1, by decide⟩

-- `ramdevice_write(sector_off, buffer, sectors)`, on the bytes behind `dev_data`.
def ramdevice_write (dev_data : Mem UInt8) (sector_off : Nat) (buffer : Mem UInt8)
    (sectors : Nat) : Option (Mem UInt8) :=
  if sector_off + sectors ≤ RB_DEVICE_SIZE then
    some (dev_data.store (sector_off * RB_SECTOR_SIZE) (buffer.load 0 (sectors * RB_SECTOR_SIZE)))
  else none

-- `ramdevice_read(sector_off, buffer, sectors)`: the buffer afterwards.
def ramdevice_read (dev_data : Mem UInt8) (sector_off : Nat) (buffer : Mem UInt8)
    (sectors : Nat) : Option (Mem UInt8) :=
  if sector_off + sectors ≤ RB_DEVICE_SIZE then
    some (buffer.store 0 (dev_data.load (sector_off * RB_SECTOR_SIZE) (sectors * RB_SECTOR_SIZE)))
  else none

inductive Dir
  | READ
  | WRITE
  deriving DecidableEq, Repr

/-- `struct bio_vec`: `buffer` is the memory from `page_address(bv_page) + bv_offset` on. -/
structure BioVec where
  bv_len : Nat
  buffer : Mem UInt8

/-- A request of the block layer: `rq_data_dir`, `blk_rq_pos`, `blk_rq_sectors` and its segments. -/
structure Request where
  dir : Dir
  start_sector : Nat
  sector_cnt : Nat
  segs : List BioVec

-- The copy for one segment.
def rb_copy (dir : Dir) (dev_data : Mem UInt8) (sector_off : Nat) (bv : BioVec) (sectors : Nat) :
    Option (Mem UInt8 × BioVec) :=
  if dir = .WRITE then
    (ramdevice_write dev_data sector_off bv.buffer sectors).map fun d ↦ (d, bv)
  else
    (ramdevice_read dev_data sector_off bv.buffer sectors).map fun b ↦
      (dev_data, { bv with buffer := b })

/-- The disk, the running `sector_offset`, `ret` and the segments after `rq_for_each_segment`. -/
structure Loop where
  dev_data : Mem UInt8
  sector_offset : Nat
  ret : Int
  segs : List BioVec

-- A length that is not a multiple of the sector size only sets `ret`; the whole sectors of the
-- segment are copied all the same.
def rb_segments (dir : Dir) (start_sector : Nat) :
    Mem UInt8 → Nat → Int → List BioVec → Option Loop
  | dev_data, sector_offset, ret, [] => some ⟨dev_data, sector_offset, ret, []⟩
  | dev_data, sector_offset, ret, bv :: bvs => do
    let ret := if bv.bv_len % RB_SECTOR_SIZE ≠ 0 then - EIO else ret
    let sectors := bv.bv_len / RB_SECTOR_SIZE
    let c ← rb_copy dir dev_data (start_sector + sector_offset) bv sectors
    let l ← rb_segments dir start_sector c.1 (sector_offset + sectors) ret bvs
    some { l with segs := c.2 :: l.segs }

/-- What `rb_transfer` leaves: its return value, the disk and the segments of the request. -/
structure Transfer where
  ret : Int
  dev_data : Mem UInt8
  segs : List BioVec

def rb_transfer (dev_data : Mem UInt8) (req : Request) : Option Transfer := do
  let l ← rb_segments req.dir req.start_sector dev_data 0 0 req.segs
  some ⟨if l.sector_offset ≠ req.sector_cnt then - EIO else l.ret, l.dev_data, l.segs⟩

/-- A request ended by `__blk_end_request_all(req, error)`, with its segments at that time. -/
structure Completion where
  req : Request
  error : Int
  segs : List BioVec

-- `rb_request`: the requests of the dispatch queue, fetched and completed one after the other.
def rb_request (dev_data : Mem UInt8) : List Request → Option (Mem UInt8 × List Completion)
  | [] => some (dev_data, [])
  | req :: q => do
    let t ← rb_transfer dev_data req
    let r ← rb_request t.dev_data q
    some (r.1, ⟨req, t.ret, t.segs⟩ :: r.2)

/-- The whole sectors of a segment list. -/
def sectors (segs : List BioVec) : Nat := (segs.map fun bv ↦ bv.bv_len / RB_SECTOR_SIZE).sum

/-- The sectors the segments take from `start_sector` on end inside the device. -/
def Request.Inside (req : Request) : Prop := req.start_sector + sectors req.segs ≤ RB_DEVICE_SIZE

/-- The segments are whole sectors and together as long as the request says. -/
def Request.Whole (req : Request) : Prop :=
  (∀ bv ∈ req.segs, RB_SECTOR_SIZE ∣ bv.bv_len) ∧
    (req.segs.map BioVec.bv_len).sum = RB_SECTOR_SIZE * req.sector_cnt

/-- The concatenation of the segments. -/
def bytes (segs : List BioVec) : List UInt8 := segs.flatMap fun bv ↦ bv.buffer.load 0 bv.bv_len

/-- The byte offset of the request's first sector in `dev_data`. -/
def Request.offset (req : Request) : Nat := req.start_sector * RB_SECTOR_SIZE

end OK210Drivers.RamDisk
