import OK210Drivers.Library.Confined
import OK210Drivers.RamDisk.Reveal

/-!
# The window of a request

`rb_transfer` compares what it has moved with the size of the request only after the loop.  The
sectors that the segments hold decide what it touches, whatever their lengths are.
-/

open Library

namespace OK210Drivers.RamDisk

/-- The bytes of the sectors `[start_sector, start_sector + sector_cnt)` of `dev_data`. -/
def Request.window (req : Request) : Set Nat :=
  {a | req.start_sector * RB_SECTOR_SIZE ≤ a ∧
    a < (req.start_sector + req.sector_cnt) * RB_SECTOR_SIZE}

/-- `rb_transfer` has a result on every disk and reads and writes only bytes of the window. -/
def StaysInWindow (req : Request) : Prop :=
  Mem.Confined (fun dev_data ↦ (rb_transfer dev_data req).map fun t ↦ ((t.ret, t.segs), t.dev_data))
    req.window

-- A loop that comes to its end has stayed on the device.
theorem rb_segments_inside {dir : Dir} {start off : Nat} {dev_data : Mem UInt8} {ret : Int}
    {segs : List BioVec} {l : Loop} (hoff : start + off ≤ RB_DEVICE_SIZE)
    (h : rb_segments dir start dev_data off ret segs = some l) :
    start + off + sectors segs ≤ RB_DEVICE_SIZE := by
  induction segs generalizing off dev_data ret l with
  | nil => exact hoff
  | cons bv bvs ih =>
    obtain ⟨c, hc, hrest⟩ := Option.bind_eq_some_iff.mp h
    obtain ⟨l', hl', _⟩ := Option.bind_eq_some_iff.mp hrest
    have hcopy : start + off + bv.bv_len / RB_SECTOR_SIZE ≤ RB_DEVICE_SIZE := by
      by_contra hout
      cases dir with
      | READ => simp [rb_copy, ramdevice_read, hout] at hc
      | WRITE => simp [rb_copy, ramdevice_write, hout] at hc
    have hstep := ih (by omega) hl'
    rw [sectors_cons]
    omega

theorem rb_transfer_inside {req : Request} {dev_data : Mem UInt8} {t : Transfer}
    (hstart : req.start_sector ≤ RB_DEVICE_SIZE) (h : rb_transfer dev_data req = some t) :
    req.Inside := by
  obtain ⟨l, hl, _⟩ := Option.bind_eq_some_iff.mp h
  exact rb_segments_inside hstart hl

-- Two reads fill the segments alike when they find the same whole sectors.
theorem filled_inj (d d' : Mem UInt8) (p : Nat) (segs : List BioVec) :
    filled d p segs = filled d' p segs ↔
      d.load p (sectors segs * RB_SECTOR_SIZE) = d'.load p (sectors segs * RB_SECTOR_SIZE) := by
  constructor
  · intro h
    exact (bytes_filled_inj d d' p segs).mp (congrArg bytes h)
  · intro h
    induction segs generalizing p with
    | nil => rfl
    | cons bv bvs ih =>
      rw [sectors_cons, Nat.add_mul, Mem.load_add, Mem.load_add, Mem.load_append_inj] at h
      rw [filled, filled, h.1, ih _ h.2]

-- The whole sectors of the segments lie in the window exactly if they are no more than stated.
theorem in_window_iff (req : Request) :
    (∀ i < sectors req.segs * RB_SECTOR_SIZE, req.offset + i ∈ req.window) ↔
      sectors req.segs ≤ req.sector_cnt := by
  have hend : (req.start_sector + req.sector_cnt) * RB_SECTOR_SIZE =
      req.offset + req.sector_cnt * RB_SECTOR_SIZE := by rw [Request.offset, Nat.add_mul]
  constructor
  · intro h
    by_contra hmore
    have hlt : req.sector_cnt * RB_SECTOR_SIZE < sectors req.segs * RB_SECTOR_SIZE :=
      Nat.mul_lt_mul_of_pos_right (by omega) (by decide)
    have hin := (h _ hlt).2
    omega
  · intro h i hi
    have hle := Nat.mul_le_mul_right RB_SECTOR_SIZE h
    refine ⟨Nat.le_add_right _ _, ?_⟩
    rw [hend]
    omega

/-- A transfer over the device stays in its window exactly if the segments hold no more sectors than
the request states. -/
theorem stays_in_window_iff_of_inside {req : Request} (hin : req.Inside) :
    StaysInWindow req ↔ sectors req.segs ≤ req.sector_cnt := by
  rw [← in_window_iff]
  unfold StaysInWindow
  simp only [rb_transfer_eq _ req hin]
  by_cases hd : req.dir = .WRITE
  · simp only [if_pos hd, Option.map_some]
    rw [Mem.confined_store_iff, wholeBytes_length]
  · simp only [if_neg hd, Option.map_some]
    apply Mem.confined_load_iff
    intro m m'
    rw [Prod.mk.injEq, eq_self_iff_true, true_and, filled_inj]

/-- A request of the block layer stays in its window exactly if its segments hold no more whole
sectors than it states; that they are as long as stated is checked after the copies. -/
theorem stays_in_window_iff (req : Request)
    (hreq : req.start_sector + req.sector_cnt ≤ RB_DEVICE_SIZE) :
    StaysInWindow req ↔ sectors req.segs ≤ req.sector_cnt := by
  constructor
  · intro h
    obtain ⟨r, hr⟩ := h.defined fun _ ↦ 0
    obtain ⟨t, ht, _⟩ := Option.map_eq_some_iff.mp hr
    exact (stays_in_window_iff_of_inside (rb_transfer_inside (by omega) ht)).mp h
  · intro h
    have hin : req.Inside := by
      show req.start_sector + sectors req.segs ≤ RB_DEVICE_SIZE
      omega
    exact (stays_in_window_iff_of_inside hin).mpr h

-- Half a sector too many, reported with `-EIO`: nothing outside of sector 3 is touched.
theorem stays_in_window_half_sector :
    StaysInWindow ⟨.WRITE, 3, 1, [⟨512, fun _ ↦ 7⟩, ⟨256, fun _ ↦ 7⟩]⟩ :=
  (stays_in_window_iff ⟨.WRITE, 3, 1, [⟨512, fun _ ↦ 7⟩, ⟨256, fun _ ↦ 7⟩]⟩ (by decide)).mpr
    (by decide)

/-- A request for sector 3 with a segment of two sectors writes sector 4 before it reports `-EIO`. -/
theorem writes_next_sector :
    let req : Request := ⟨.WRITE, 3, 1, [⟨1024, fun _ ↦ 7⟩]⟩
    req.start_sector + req.sector_cnt ≤ RB_DEVICE_SIZE ∧ ¬ StaysInWindow req := by
  refine ⟨by decide, fun h ↦ ?_⟩
  have hin : Request.Inside ⟨.WRITE, 3, 1, [⟨1024, fun _ ↦ 7⟩]⟩ :=
    show 3 + sectors [⟨1024, fun _ ↦ 7⟩] ≤ RB_DEVICE_SIZE by decide
  have hle := (stays_in_window_iff_of_inside hin).mp h
  exact absurd hle (by decide)

end OK210Drivers.RamDisk
