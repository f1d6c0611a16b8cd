import Mathlib.Data.BitVec
import OK210Drivers.Library.Confined
import OK210Drivers.RamDisk.Device

/-!
# The lab45 RAM disk

`lab45.c` answers a bio by walking one pointer over the 8 MiB behind `pdevice->data`.  `sector_t` has
64 bits and a pointer of the board 32, so a position is what the 32 bits of the pointer are away from
the start of the data.  A copy that leaves the data has no result (`none`).
-/

open Library

namespace OK210Drivers.RamDisk

def VRD_SECTOR_SIZE : Nat := 512
def VRD_SIZE : Nat := 8 * 1024 * 1024

/-- `struct bio`, with the segments from `bi_idx` on. -/
structure Bio where
  bi_sector : BitVec 64
  bi_size : BitVec 32
  bi_rw : BitVec 32
  segs : List BioVec

def READ : BitVec 32 := 0
def WRITE : BitVec 32 := 1
def READA : BitVec 32 := 2

-- The kernel's `bio_data_dir(bio)`.
def bio_data_dir (bio : Bio) : BitVec 32 := bio.bi_rw &&& 1

/-- What `bio_endio(bio, error)` is told, with the data of the disk and the segments at that time. -/
structure Ended where
  error : Int
  data : Mem UInt8
  segs : List BioVec

/-- The `n` bytes from the pointer on are bytes of the disk. -/
def OnDisk (pVHDDData : BitVec 32) (n : Nat) : Prop := n = 0 ∨ pVHDDData.toNat + n ≤ VRD_SIZE

instance (p : BitVec 32) (n : Nat) : Decidable (OnDisk p n) :=
  inferInstanceAs (Decidable (_ ∨ _))

-- `bio_for_each_segment` from the pointer on, and what follows it.
def vrd_segments (dir : BitVec 32) : Mem UInt8 → BitVec 32 → List BioVec → Option Ended
  | data, _, [] => some ⟨0, data, []⟩
  | data, pVHDDData, bvec :: bvs =>
    if dir = READA ∨ dir = READ then
      if OnDisk pVHDDData bvec.bv_len then do
        let pBuffer := bvec.buffer.store 0 (data.load pVHDDData.toNat bvec.bv_len)
        let r ← vrd_segments dir data (pVHDDData + BitVec.ofNat 32 bvec.bv_len) bvs
        some { r with segs := { bvec with buffer := pBuffer } :: r.segs }
      else none
    else if dir = WRITE then
      if OnDisk pVHDDData bvec.bv_len then do
        let data := data.store pVHDDData.toNat (bvec.buffer.load 0 bvec.bv_len)
        let r ← vrd_segments dir data (pVHDDData + BitVec.ofNat 32 bvec.bv_len) bvs
        some { r with segs := bvec :: r.segs }
      else none
    else some ⟨- EIO, data, bvec :: bvs⟩

-- `vrd_make_request(q, bio)`; the sum is computed as a `sector_t`.
def vrd_make_request (data : Mem UInt8) (bio : Bio) : Option Ended :=
  if bio.bi_sector * BitVec.ofNat 64 VRD_SECTOR_SIZE + bio.bi_size.setWidth 64 >
      BitVec.ofNat 64 VRD_SIZE then
    some ⟨- EIO, data, bio.segs⟩
  else
    let pVHDDData := (bio.bi_sector * BitVec.ofNat 64 VRD_SECTOR_SIZE).setWidth 32
    vrd_segments (bio_data_dir bio) data pVHDDData bio.segs

-- The bios of a queue, one after the other.
def vrd_requests (data : Mem UInt8) : List Bio → Option (Mem UInt8 × List Ended)
  | [] => some (data, [])
  | bio :: q => do
    let e ← vrd_make_request data bio
    let r ← vrd_requests e.data q
    some (r.1, e :: r.2)

/-! ## What a bio asks for -/

/-- The byte after the last one of the bio, in exact arithmetic. -/
def Bio.limit (bio : Bio) : Nat := bio.bi_sector.toNat * VRD_SECTOR_SIZE + bio.bi_size.toNat

/-- The bytes of the disk that the bio is about. -/
def Bio.window (bio : Bio) : Set Nat :=
  {a | bio.bi_sector.toNat * VRD_SECTOR_SIZE ≤ a ∧ a < bio.limit}

/-- The bio is answered exactly if it lies inside of the disk: then every copy stays in its bytes,
and otherwise it ends in error and nothing is copied. -/
def AnswersInside (bio : Bio) : Prop :=
  (∀ data, ∃ e, vrd_make_request data bio = some e ∧ (e.error = 0 ↔ bio.limit ≤ VRD_SIZE) ∧
    (VRD_SIZE < bio.limit → e.data = data ∧ e.segs = bio.segs)) ∧
  (bio.limit ≤ VRD_SIZE → Mem.Confined
    (fun data ↦ (vrd_make_request data bio).map fun e ↦ ((e.error, e.segs), e.data)) bio.window)

/-! ## The walk over the segments -/

-- The segments after a read from the byte offset `p` on.
def readInto (data : Mem UInt8) : Nat → List BioVec → List BioVec
  | _, [] => []
  | p, bv :: bvs =>
    { bv with buffer := bv.buffer.store 0 (data.load p bv.bv_len) } ::
      readInto data (p + bv.bv_len) bvs

/-- The length of a segment list in bytes. -/
def length (segs : List BioVec) : Nat := (segs.map BioVec.bv_len).sum

@[simp] theorem length_nil : length [] = 0 := rfl

@[simp] theorem length_cons (bv : BioVec) (bvs : List BioVec) :
    length (bv :: bvs) = bv.bv_len + length bvs := rfl

theorem bio_data_dir_cases (bio : Bio) : bio_data_dir bio = READ ∨ bio_data_dir bio = WRITE := by
  have h : bio_data_dir bio = BitVec.ofNat 32 (bio.bi_rw.toNat % 2) := by
    apply BitVec.eq_of_toNat_eq
    show (bio.bi_rw &&& 1).toNat = _
    rw [BitVec.toNat_and, BitVec.toNat_ofNat]
    show bio.bi_rw.toNat &&& 1 = _
    rw [Nat.and_one_is_mod]
    omega
  rcases Nat.mod_two_eq_zero_or_one bio.bi_rw.toNat with h0 | h1
  · exact .inl (by rw [h, h0]; rfl)
  · exact .inr (by rw [h, h1]; rfl)

-- The pointer advances without wrapping as long as it stays on the disk.
theorem pointer_advance {p : BitVec 32} {n : Nat} (h : p.toNat + n ≤ VRD_SIZE) :
    (p + BitVec.ofNat 32 n).toNat = p.toNat + n := by
  have hsize : VRD_SIZE < 2 ^ 32 := by decide
  rw [BitVec.toNat_add, BitVec.toNat_ofNat, Nat.mod_eq_of_lt (by omega : n < 2 ^ 32),
    Nat.mod_eq_of_lt (by omega)]

theorem vrd_segments_read (data : Mem UInt8) (p : BitVec 32) (segs : List BioVec)
    (h : p.toNat + length segs ≤ VRD_SIZE) :
    vrd_segments READ data p segs = some ⟨0, data, readInto data p.toNat segs⟩ := by
  induction segs generalizing p with
  | nil => rfl
  | cons bv bvs ih =>
    rw [length_cons] at h
    have hadv : (p + BitVec.ofNat 32 bv.bv_len).toNat = p.toNat + bv.bv_len :=
      pointer_advance (by omega)
    have hon : OnDisk p bv.bv_len := .inr (by omega)
    rw [vrd_segments, if_pos (.inr rfl), if_pos hon, ih _ (by omega), hadv]
    rfl

theorem vrd_segments_write (data : Mem UInt8) (p : BitVec 32) (segs : List BioVec)
    (h : p.toNat + length segs ≤ VRD_SIZE) :
    vrd_segments WRITE data p segs = some ⟨0, data.store p.toNat (bytes segs), segs⟩ := by
  induction segs generalizing data p with
  | nil => simp [vrd_segments, bytes]
  | cons bv bvs ih =>
    rw [length_cons] at h
    have hadv : (p + BitVec.ofNat 32 bv.bv_len).toNat =
        p.toNat + (bv.buffer.load 0 bv.bv_len).length := by
      rw [Mem.load_length, pointer_advance (by omega)]
    have hon : OnDisk p bv.bv_len := .inr (by omega)
    have hstep := ih (data.store p.toNat (bv.buffer.load 0 bv.bv_len)) (p + BitVec.ofNat 32 bv.bv_len)
      (by rw [hadv, Mem.load_length]; omega)
    rw [hadv, Mem.store_store_adjacent] at hstep
    rw [vrd_segments, if_neg (by decide), if_pos rfl, if_pos hon]
    simp only [hstep]
    rfl

-- After its first segment a bio goes on with the others.
theorem vrd_segments_cons_some {dir : BitVec 32} (hdir : dir = READ ∨ dir = WRITE)
    {data : Mem UInt8} {p : BitVec 32} {bv : BioVec} {bvs : List BioVec} {e : Ended}
    (h : vrd_segments dir data p (bv :: bvs) = some e) :
    ∃ data' p' r, vrd_segments dir data' p' bvs = some r ∧ e.error = r.error := by
  rw [vrd_segments] at h
  by_cases hread : dir = READA ∨ dir = READ
  · rw [if_pos hread] at h
    split at h
    · obtain ⟨r, hrest, he⟩ := Option.bind_eq_some_iff.mp h
      cases he
      exact ⟨_, _, r, hrest, rfl⟩
    · cases h
  · rw [if_neg hread, if_pos (hdir.resolve_left fun he ↦ hread (.inr he))] at h
    split at h
    · obtain ⟨r, hrest, he⟩ := Option.bind_eq_some_iff.mp h
      cases he
      exact ⟨_, _, r, hrest, rfl⟩
    · cases h

-- A walk that reaches the end of the segments reports no error.
theorem vrd_segments_error {dir : BitVec 32} (hdir : dir = READ ∨ dir = WRITE) {data : Mem UInt8}
    {p : BitVec 32} {segs : List BioVec} {e : Ended} (h : vrd_segments dir data p segs = some e) :
    e.error = 0 := by
  induction segs generalizing data p e with
  | nil =>
    cases h
    rfl
  | cons bv bvs ih =>
    obtain ⟨_, _, r, hrest, herr⟩ := vrd_segments_cons_some hdir h
    rw [herr]
    exact ih hrest

theorem bytes_length_eq (segs : List BioVec) : (bytes segs).length = length segs := by
  simp only [bytes, List.length_flatMap, Mem.load_length, length]

theorem readInto_eqOn {S : Set Nat} {m m' : Mem UInt8} (hm : Set.EqOn m m' S) {p : Nat}
    {segs : List BioVec} (h : ∀ i < length segs, p + i ∈ S) :
    readInto m p segs = readInto m' p segs := by
  induction segs generalizing p with
  | nil => rfl
  | cons bv bvs ih =>
    rw [length_cons] at h
    rw [readInto, readInto, Mem.load_eqOn hm fun i hi ↦ h i (by omega), ih]
    intro i hi
    rw [Nat.add_assoc]
    exact h _ (by omega)

/-! ## The range check -/

-- The check compares the sum modulo 2^64.
theorem check_iff (bio : Bio) :
    bio.bi_sector * BitVec.ofNat 64 VRD_SECTOR_SIZE + bio.bi_size.setWidth 64 >
      BitVec.ofNat 64 VRD_SIZE ↔ VRD_SIZE < bio.limit % 2 ^ 64 := by
  show BitVec.ofNat 64 VRD_SIZE < _ ↔ _
  have hsize := bio.bi_size.isLt
  rw [BitVec.lt_def, BitVec.toNat_add, BitVec.toNat_mul, BitVec.toNat_setWidth]
  show VRD_SIZE < (bio.bi_sector.toNat * VRD_SECTOR_SIZE % 2 ^ 64 + bio.bi_size.toNat % 2 ^ 64) %
    2 ^ 64 ↔ _
  rw [← Nat.add_mod, Bio.limit]

theorem vrd_make_request_fail {bio : Bio} (h : VRD_SIZE < bio.limit % 2 ^ 64) (data : Mem UInt8) :
    vrd_make_request data bio = some ⟨- EIO, data, bio.segs⟩ := by
  rw [vrd_make_request, if_pos ((check_iff bio).mpr h)]

theorem vrd_make_request_inside {bio : Bio} (h : bio.limit ≤ VRD_SIZE)
    (hsize : length bio.segs = bio.bi_size.toNat) (data : Mem UInt8) :
    vrd_make_request data bio = some
      (if bio_data_dir bio = WRITE then
        ⟨0, data.store (bio.bi_sector.toNat * VRD_SECTOR_SIZE) (bytes bio.segs), bio.segs⟩
      else ⟨0, data, readInto data (bio.bi_sector.toNat * VRD_SECTOR_SIZE) bio.segs⟩) := by
  have hsmall : VRD_SIZE < 2 ^ 32 := by decide
  have hmod : bio.limit % 2 ^ 64 = bio.limit := Nat.mod_eq_of_lt (by omega)
  have hp : ((bio.bi_sector * BitVec.ofNat 64 VRD_SECTOR_SIZE).setWidth 32).toNat =
      bio.bi_sector.toNat * VRD_SECTOR_SIZE := by
    have hle : bio.bi_sector.toNat * VRD_SECTOR_SIZE ≤ bio.limit := Nat.le_add_right _ _
    rw [BitVec.toNat_setWidth, BitVec.toNat_mul]
    show bio.bi_sector.toNat * VRD_SECTOR_SIZE % 2 ^ 64 % 2 ^ 32 = _
    rw [Nat.mod_eq_of_lt (by omega : _ < 2 ^ 64), Nat.mod_eq_of_lt (by omega)]
  have hroom : ((bio.bi_sector * BitVec.ofNat 64 VRD_SECTOR_SIZE).setWidth 32).toNat +
      length bio.segs ≤ VRD_SIZE := by
    rw [hp, hsize]
    exact h
  rw [vrd_make_request, if_neg (by rw [check_iff, hmod]; omega)]
  rcases bio_data_dir_cases bio with hd | hd
  · rw [hd, vrd_segments_read _ _ _ hroom, hp, if_neg (by decide)]
  · rw [hd, vrd_segments_write _ _ _ hroom, hp, if_pos rfl]

-- A bio inside of the disk stays in its bytes.
theorem vrd_make_request_confined {bio : Bio} (h : bio.limit ≤ VRD_SIZE)
    (hsize : length bio.segs = bio.bi_size.toNat) : Mem.Confined
      (fun data ↦ (vrd_make_request data bio).map fun e ↦ ((e.error, e.segs), e.data))
      bio.window := by
  have hwin : ∀ i < length bio.segs, bio.bi_sector.toNat * VRD_SECTOR_SIZE + i ∈ bio.window := by
    intro i hi
    rw [hsize] at hi
    exact ⟨Nat.le_add_right _ _, Nat.add_lt_add_left hi _⟩
  simp only [vrd_make_request_inside h hsize]
  by_cases hd : bio_data_dir bio = WRITE
  · simp only [if_pos hd, Option.map_some]
    rw [Mem.confined_store_iff, bytes_length_eq]
    exact hwin
  · simp only [if_neg hd, Option.map_some]
    rw [Mem.confined_read_iff fun data ↦
      ((0 : Int), readInto data (bio.bi_sector.toNat * VRD_SECTOR_SIZE) bio.segs)]
    exact fun m m' hm ↦ by rw [readInto_eqOn hm hwin]

-- A sum that wraps around into the disk passes the check.
theorem not_answersInside {bio : Bio} (hbig : 2 ^ 64 ≤ bio.limit)
    (hwrap : bio.limit % 2 ^ 64 ≤ VRD_SIZE) : ¬ AnswersInside bio := by
  intro h
  have hsize : VRD_SIZE < 2 ^ 64 := by decide
  obtain ⟨e, he, herr, _⟩ := h.1 fun _ ↦ 0
  rw [vrd_make_request, if_neg (by rw [check_iff]; omega)] at he
  have hle := herr.mp (vrd_segments_error (bio_data_dir_cases bio) he)
  omega

/-- The check is right exactly if the sum does not wrap around into the disk: a bio whose exact end
lies past 2^64 and is in 0..VRD_SIZE modulo 2^64 is not refused. -/
theorem vrd_answers_inside_iff (bio : Bio) (hsize : length bio.segs = bio.bi_size.toNat) :
    AnswersInside bio ↔ bio.limit < 2 ^ 64 ∨ VRD_SIZE < bio.limit % 2 ^ 64 := by
  constructor
  · intro h
    by_contra hwrap
    rw [not_or, Nat.not_lt, Nat.not_lt] at hwrap
    exact not_answersInside hwrap.1 hwrap.2 h
  · intro h
    by_cases hin : bio.limit ≤ VRD_SIZE
    · refine ⟨fun data ↦ ⟨_, vrd_make_request_inside hin hsize data, ?_, fun hlt ↦ by omega⟩,
        fun _ ↦ vrd_make_request_confined hin hsize⟩
      by_cases hd : bio_data_dir bio = WRITE
      · simp [if_pos hd, hin]
      · simp [if_neg hd, hin]
    · have hfail : VRD_SIZE < bio.limit % 2 ^ 64 := by
        rcases h with hlt | hlt
        · rw [Nat.mod_eq_of_lt hlt]
          omega
        · exact hlt
      refine ⟨fun data ↦ ⟨_, vrd_make_request_fail hfail data, ?_, fun _ ↦ ⟨rfl, rfl⟩⟩,
        fun hle ↦ absurd hle hin⟩
      have herr : - EIO ≠ 0 := by decide
      exact ⟨fun he ↦ absurd he herr, fun hle ↦ absurd hle hin⟩

-- The last sector of the disk.
theorem vrd_answers_last_sector : AnswersInside ⟨16383, 512, WRITE, [⟨512, fun _ ↦ 7⟩]⟩ :=
  (vrd_answers_inside_iff ⟨16383, 512, WRITE, [⟨512, fun _ ↦ 7⟩]⟩ rfl).mpr (.inl (by decide))

/-- Sector 2^55 is taken for sector 0: the write is not refused, and the first bytes of the disk are
overwritten. -/
theorem vrd_overwrites_sector_zero :
    length [⟨512, fun _ ↦ 7⟩] = (512 : BitVec 32).toNat ∧
    ¬ AnswersInside ⟨2 ^ 55, 512, WRITE, [⟨512, fun _ ↦ 7⟩]⟩ ∧
    vrd_make_request (fun _ ↦ 0) ⟨2 ^ 55, 512, WRITE, [⟨512, fun _ ↦ 7⟩]⟩ =
      some ⟨0, Mem.store (fun _ ↦ 0) 0 (bytes [⟨512, fun _ ↦ 7⟩]), [⟨512, fun _ ↦ 7⟩]⟩ := by
  refine ⟨rfl, not_answersInside (by decide) (by decide), ?_⟩
  rw [vrd_make_request, if_neg (by decide)]
  exact vrd_segments_write (fun _ ↦ 0) 0 [⟨512, fun _ ↦ 7⟩] (by decide)

end OK210Drivers.RamDisk
