import OK210Drivers.RamDisk.Flat
import OK210Drivers.RamDisk.Vrd

/-!
# The two RAM disks agree

On whole requests inside of 1024 sectors the pointer walk of lab45 and the sector copies of lab46 do
the same: one request keeps the two images equal and is answered alike, and so does a queue.
-/

open Library

namespace OK210Drivers.RamDisk

/-- A bio and a request that ask for the same. -/
structure SameRequest (bio : Bio) (req : Request) : Prop where
  sector : bio.bi_sector.toNat = req.start_sector
  size : bio.bi_size.toNat = RB_SECTOR_SIZE * req.sector_cnt
  dir : bio_data_dir bio = WRITE ↔ req.dir = .WRITE
  segs : bio.segs = req.segs

/-- The segments are whole sectors, together as many as stated, and inside of the 1024 sectors. -/
def Request.Common (req : Request) : Prop :=
  req.Whole ∧ req.start_sector + req.sector_cnt ≤ RB_DEVICE_SIZE

/-- The bytes of the 1024 sectors. -/
def imageBytes : Set Nat := {a | a < RB_DEVICE_SIZE * RB_SECTOR_SIZE}

/-- Both disks report success and leave the segments alike. -/
def SameAnswer (e : Ended) (c : Completion) : Prop := e.error = 0 ∧ c.error = 0 ∧ e.segs = c.segs

theorem Request.Common.inside {req : Request} (h : req.Common) : req.Inside := by
  rw [Request.Inside, (sectors_eq_iff h.1.1 _).mpr h.1.2]
  exact h.2

theorem SameRequest.length_eq {bio : Bio} {req : Request} (h : SameRequest bio req)
    (hreq : req.Common) : length bio.segs = bio.bi_size.toNat := by
  rw [h.segs, h.size, length, hreq.1.2]

theorem SameRequest.limit_le {bio : Bio} {req : Request} (h : SameRequest bio req)
    (hreq : req.Common) : bio.limit ≤ RB_DEVICE_SIZE * RB_SECTOR_SIZE := by
  have hmul := Nat.mul_le_mul_right RB_SECTOR_SIZE hreq.2
  rw [Nat.add_mul, Nat.mul_comm req.sector_cnt, ← h.sector, ← h.size] at hmul
  exact hmul

-- For whole sectors nothing is left out at the end of a segment.
theorem readInto_eq_filled (data : Mem UInt8) (p : Nat) {segs : List BioVec}
    (h : ∀ bv ∈ segs, RB_SECTOR_SIZE ∣ bv.bv_len) : readInto data p segs = filled data p segs := by
  induction segs generalizing p with
  | nil => rfl
  | cons bv bvs ih =>
    rw [List.forall_mem_cons] at h
    rw [readInto, filled, Nat.div_mul_cancel h.1, ih _ h.2]

-- The bytes of a common request are bytes of the image.
theorem SameRequest.mem_image {bio : Bio} {req : Request} (h : SameRequest bio req)
    (hreq : req.Common) : ∀ i < length req.segs, req.offset + i ∈ imageBytes := by
  intro i hi
  have hlimit := h.limit_le hreq
  have hoff : req.offset = bio.bi_sector.toNat * VRD_SECTOR_SIZE := by
    rw [Request.offset, h.sector]
    rfl
  rw [← h.segs, h.length_eq hreq] at hi
  rw [Bio.limit] at hlimit
  show req.offset + i < _
  omega

/-- One request: both disks succeed, answer alike and keep their images equal. -/
theorem SameRequest.step {bio : Bio} {req : Request} (h : SameRequest bio req) (hreq : req.Common)
    {data dev_data : Mem UInt8} (himg : Set.EqOn data dev_data imageBytes) :
    ∃ e t, vrd_make_request data bio = some e ∧ rb_transfer dev_data req = some t ∧
      e.error = 0 ∧ t.ret = 0 ∧ e.segs = t.segs ∧ Set.EqOn e.data t.dev_data imageBytes := by
  have hle : RB_DEVICE_SIZE * RB_SECTOR_SIZE ≤ VRD_SIZE := by decide
  have hvrd := vrd_make_request_inside ((h.limit_le hreq).trans hle) (h.length_eq hreq) data
  have hoff : bio.bi_sector.toNat * VRD_SECTOR_SIZE = req.offset := by
    rw [h.sector]
    rfl
  rw [hoff, h.segs] at hvrd
  by_cases hd : req.dir = .WRITE
  · rw [if_pos (h.dir.mpr hd)] at hvrd
    exact ⟨_, _, hvrd, rb_transfer_write hreq.inside hreq.1 hd, rfl, rfl, rfl, Mem.store_eqOn himg _ _⟩
  · have hread : req.dir = .READ := by
      cases hdir : req.dir with
      | READ => rfl
      | WRITE => exact absurd hdir hd
    rw [if_neg fun he ↦ hd (h.dir.mp he)] at hvrd
    refine ⟨_, _, hvrd, rb_transfer_read hreq.inside hreq.1 hread, rfl, rfl, ?_, himg⟩
    show readInto data _ _ = filled dev_data _ _
    rw [readInto_eqOn himg (h.mem_image hreq), readInto_eq_filled _ _ hreq.1.1]

/-- The two RAM disks agree on every queue of common requests: from equal images both report success
for every request, hand back the same bytes, and end in equal images. -/
theorem ram_disks_agree {bios : List Bio} {reqs : List Request}
    (hsame : List.Forall₂ SameRequest bios reqs) (hreqs : ∀ req ∈ reqs, req.Common)
    {data dev_data : Mem UInt8} (himg : Set.EqOn data dev_data imageBytes) :
    ∃ data' es dev_data' cs, vrd_requests data bios = some (data', es) ∧
      rb_request dev_data reqs = some (dev_data', cs) ∧ cs.map Completion.req = reqs ∧
      List.Forall₂ SameAnswer es cs ∧ Set.EqOn data' dev_data' imageBytes := by
  induction hsame generalizing data dev_data with
  | nil => exact ⟨data, [], dev_data, [], rfl, rfl, rfl, .nil, himg⟩
  | @cons bio req bios reqs hbio _ ih =>
    rw [List.forall_mem_cons] at hreqs
    obtain ⟨e, t, he, ht, herr, hret, hsegs, hkeep⟩ := hbio.step hreqs.1 himg
    obtain ⟨data', es, dev_data', cs, hes, hcs, hmap, hans, himg'⟩ := ih hreqs.2 hkeep
    refine ⟨data', e :: es, dev_data', ⟨req, t.ret, t.segs⟩ :: cs, ?_, ?_,
      congrArg (req :: ·) hmap, .cons ⟨herr, hret, hsegs⟩ hans, himg'⟩
    · simp only [vrd_requests, he, hes, Option.bind_eq_bind, Option.bind_some]
    · simp only [rb_request, ht, hcs, Option.bind_eq_bind, Option.bind_some]

-- A write of sector 3, read back by a read-ahead of the same sector.
theorem ram_disks_agree_two_requests :
    ∃ data' es dev_data' cs,
      vrd_requests (fun _ ↦ 0) [⟨3, 512, WRITE, [⟨512, fun _ ↦ 7⟩]⟩,
        ⟨3, 512, READA, [⟨512, fun _ ↦ 1⟩]⟩] = some (data', es) ∧
      rb_request (fun _ ↦ 0) [⟨.WRITE, 3, 1, [⟨512, fun _ ↦ 7⟩]⟩,
        ⟨.READ, 3, 1, [⟨512, fun _ ↦ 1⟩]⟩] = some (dev_data', cs) ∧
      List.Forall₂ SameAnswer es cs ∧ Set.EqOn data' dev_data' imageBytes := by
  have hsame : List.Forall₂ SameRequest
      [⟨3, 512, WRITE, [⟨512, fun _ ↦ 7⟩]⟩, ⟨3, 512, READA, [⟨512, fun _ ↦ 1⟩]⟩]
      [⟨.WRITE, 3, 1, [⟨512, fun _ ↦ 7⟩]⟩, ⟨.READ, 3, 1, [⟨512, fun _ ↦ 1⟩]⟩] :=
    .cons ⟨rfl, rfl, by decide, rfl⟩ (.cons ⟨rfl, rfl, by decide, rfl⟩ .nil)
  have hcommon : ∀ req ∈ [⟨.WRITE, 3, 1, [⟨512, fun _ ↦ 7⟩]⟩,
      ⟨.READ, 3, 1, [⟨512, fun _ ↦ 1⟩]⟩], Request.Common req := by
    simp [Request.Common, Request.Whole, RB_SECTOR_SIZE, RB_DEVICE_SIZE]
  obtain ⟨data', es, dev_data', cs, hes, hcs, _, hans, himg⟩ :=
    ram_disks_agree hsame hcommon (Set.eqOn_refl (fun _ ↦ 0) imageBytes)
  exact ⟨data', es, dev_data', cs, hes, hcs, hans, himg⟩

end OK210Drivers.RamDisk
