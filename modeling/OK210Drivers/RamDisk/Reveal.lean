import OK210Drivers.RamDisk.Flat
import OK210Drivers.RamDisk.Partition

/-!
# What a fresh RAM disk shows of the memory it was made of

`vmalloc` does not clear the memory of the disk, and the boot records cover four of its 1024 sectors.
So a read shows nothing of what was there before exactly if every one of its sectors is one of these
four or has been written.
-/

open Library

namespace OK210Drivers.RamDisk

def ENOMEM : Int := 12

/-- `ramdevice_init()`: `mem` is what `vmalloc` returns, with its contents. -/
def ramdevice_init (mem : Option (Mem UInt8)) : Int × Option (Mem UInt8) :=
  match mem with
  | none => (-ENOMEM, none)
  | some dev_data => (RB_DEVICE_SIZE, some (copy_mbr_n_br dev_data))

/-- What the reads of a list of completions deliver. -/
def delivered (cs : List Completion) : List (List UInt8) :=
  (cs.filter fun c ↦ c.req.dir = .READ).map fun c ↦ bytes c.segs

/-- What the reads among a queue of requests deliver when the disk was made of this memory; `none` if
a request leaves the disk. -/
def reads (mem : Mem UInt8) (reqs : List Request) : Option (List (List UInt8)) := do
  let dev_data ← (ramdevice_init (some mem)).2
  let r ← rb_request dev_data reqs
  some (delivered r.2)

/-- The sectors that a request moves. -/
def Request.Covers (req : Request) (sector : Nat) : Prop :=
  req.start_sector ≤ sector ∧ sector < req.start_sector + sectors req.segs

/-- The sectors of the boot records. -/
def bootSectors : List Nat := 0 :: def_log_part_br_cyl.map fun cyl ↦ cyl * 32

/-- Every read covers only sectors of boot records and sectors that an earlier write covers. -/
def ReadsWritten (reqs : List Request) : Prop :=
  ∀ pre req post, reqs = pre ++ req :: post → req.dir = .READ → ∀ sector, req.Covers sector →
    sector ∈ bootSectors ∨ ∃ w ∈ pre, w.dir = .WRITE ∧ w.Covers sector

/-- The bytes of a set of sectors. -/
def sectorBytes (S : Set Nat) : Set Nat := {a | a / RB_SECTOR_SIZE ∈ S}

section Init

variable {f : Mem UInt8 → Mem UInt8} {S : Set Nat}

theorem mem_sectorBytes {sector i : Nat} (hi : i < RB_SECTOR_SIZE) :
    sector * RB_SECTOR_SIZE + i ∈ sectorBytes S ↔ sector ∈ S := by
  show (sector * RB_SECTOR_SIZE + i) / RB_SECTOR_SIZE ∈ S ↔ _
  rw [Nat.mul_comm, Nat.mul_add_div (by decide), Nat.div_eq_of_lt hi, Nat.add_zero]

-- Clearing whole sectors or copying data into them fills these sectors.
theorem fills_sectors (start : Nat) (bs : List UInt8) (n : Nat)
    (hlen : bs.length = n * RB_SECTOR_SIZE) : Mem.Fills
      (fun m ↦ m.store (start * RB_SECTOR_SIZE) bs)
      (sectorBytes {sector | start ≤ sector ∧ sector < start + n}) := by
  have hset : {a | start * RB_SECTOR_SIZE ≤ a ∧ a < start * RB_SECTOR_SIZE + bs.length} =
      sectorBytes {sector | start ≤ sector ∧ sector < start + n} := by
    ext a
    show _ ↔ start ≤ a / RB_SECTOR_SIZE ∧ a / RB_SECTOR_SIZE < start + n
    rw [Nat.le_div_iff_mul_le (by decide), Nat.div_lt_iff_lt_mul (by decide), Nat.add_mul, ← hlen]
    rfl
  rw [← hset]
  exact Mem.fills_store ..

-- A record that is written into a cleared sector.
theorem fills_record {sector : Nat} (h : Mem.Fills f (sectorBytes {sector})) (p : Nat)
    (bs : List UInt8) (hp : p + bs.length ≤ RB_SECTOR_SIZE) :
    Mem.Fills (fun m ↦ (f m).store (sector * RB_SECTOR_SIZE + p) bs) (sectorBytes {sector}) := by
  apply h.patch
  intro i hi
  rw [Nat.add_assoc, mem_sectorBytes (by omega)]
  rfl

theorem fills_cleared (sector : Nat) : Mem.Fills
    (fun m ↦ m.store (sector * RB_SECTOR_SIZE) (List.replicate RB_SECTOR_SIZE (0 : UInt8)))
    (sectorBytes {sector}) := by
  have h := fills_sectors sector (List.replicate RB_SECTOR_SIZE 0) 1
    (by rw [List.length_replicate, Nat.one_mul])
  have hset : {s | sector ≤ s ∧ s < sector + 1} = {sector} := by
    ext s
    exact ⟨fun hs ↦ Nat.le_antisymm (Nat.lt_succ_iff.mp hs.2) hs.1,
      fun hs ↦ hs ▸ ⟨Nat.le_refl _, Nat.lt_succ_self _⟩⟩
  rwa [hset] at h

theorem fills_copy_br (cyl : Nat) (t : PartTable) :
    Mem.Fills (fun m ↦ copy_br m cyl t) (sectorBytes {cyl * 32}) := by
  have hclear := fills_cleared (cyl * 32)
  have htable := fills_record hclear PARTITION_TABLE_OFFSET t.bytes
    (by rw [PartTable.bytes_length]; decide)
  exact fills_record htable BR_SIGNATURE_OFFSET (leBytes 2 BR_SIGNATURE)
    (by rw [leBytes_length]; decide)

theorem fills_copy_mbr : Mem.Fills copy_mbr (sectorBytes {0}) := by
  have hclear := fills_cleared 0
  have hsig := fills_record hclear MBR_DISK_SIGNATURE_OFFSET (leBytes 4 0x36E5756D#32)
    (by rw [leBytes_length]; decide)
  have htable := fills_record hsig PARTITION_TABLE_OFFSET def_part_table.bytes
    (by rw [PartTable.bytes_length]; decide)
  have h := fills_record htable MBR_SIGNATURE_OFFSET (leBytes 2 MBR_SIGNATURE)
    (by rw [leBytes_length]; decide)
  simp only [Nat.zero_mul, Nat.zero_add] at h
  exact h

theorem fills_copy_brs (h : Mem.Fills f (sectorBytes S)) (brs : List (Nat × PartTable)) :
    Mem.Fills (fun m ↦ copy_brs (f m) brs)
      (sectorBytes {sector | sector ∈ S ∨ sector ∈ brs.map fun br ↦ br.1 * 32}) := by
  induction brs generalizing f S with
  | nil => simpa [copy_brs] using h
  | cons br brs ih =>
    have hcons := ih (f := fun m ↦ copy_br (f m) br.1 br.2) (S := S ∪ {br.1 * 32})
      ((fills_copy_br br.1 br.2).comp h)
    have hset : {sector | sector ∈ S ∨ sector ∈ (br :: brs).map fun br ↦ br.1 * 32} =
        {sector | sector ∈ S ∪ {br.1 * 32} ∨ sector ∈ brs.map fun br ↦ br.1 * 32} := by
      ext sector
      show _ ∨ sector ∈ (br.1 * 32) :: brs.map _ ↔ (sector ∈ S ∨ sector = br.1 * 32) ∨ _
      rw [List.mem_cons, or_assoc]
    rw [hset]
    exact hcons

theorem fills_init : Mem.Fills copy_mbr_n_br (sectorBytes {sector | sector ∈ bootSectors}) := by
  have h := fills_copy_brs fills_copy_mbr (def_log_part_br_cyl.zip def_log_part_table)
  have hset : {sector | sector ∈ ({0} : Set Nat) ∨
      sector ∈ (def_log_part_br_cyl.zip def_log_part_table).map fun br ↦ br.1 * 32} =
      {sector | sector ∈ bootSectors} := by
    ext sector
    simp [bootSectors, def_log_part_br_cyl, def_log_part_table]
  rwa [hset] at h

end Init

section Reads

variable {f : Mem UInt8 → Mem UInt8} {S : Set Nat} {reqs : List Request} {req : Request}

/-- What the reads of a queue deliver, request by request. -/
def deliveries (dev_data : Mem UInt8) : List Request → List (List UInt8)
  | [] => []
  | req :: q =>
    if req.dir = .READ then
      bytes (filled dev_data req.offset req.segs) :: deliveries dev_data q
    else deliveries (dev_data.store req.offset (wholeBytes req.segs)) q

/-- `ReadsWritten` when the sectors in `S` are known from the start. -/
def ReadsFrom (S : Set Nat) (reqs : List Request) : Prop :=
  ∀ pre req post, reqs = pre ++ req :: post → req.dir = .READ → ∀ sector, req.Covers sector →
    sector ∈ S ∨ ∃ w ∈ pre, w.dir = .WRITE ∧ w.Covers sector

theorem rb_request_deliveries (dev_data : Mem UInt8) (hin : ∀ req ∈ reqs, req.Inside) :
    (rb_request dev_data reqs).map (fun r ↦ delivered r.2) = some (deliveries dev_data reqs) := by
  induction reqs generalizing dev_data with
  | nil => rfl
  | cons req q ih =>
    rw [List.forall_mem_cons] at hin
    rw [rb_request, rb_transfer_eq dev_data req hin.1, Option.bind_eq_bind, Option.bind_some, deliveries]
    cases hd : req.dir with
    | READ =>
      have hq := ih dev_data hin.2
      rcases Option.map_eq_some_iff.mp hq with ⟨r, hr, hdel⟩
      simp [hr, delivered, hd, ← hdel]
    | WRITE =>
      have hq := ih (dev_data.store req.offset (wholeBytes req.segs)) hin.2
      rcases Option.map_eq_some_iff.mp hq with ⟨r, hr, hdel⟩
      simp [hr, delivered, hd, ← hdel]

-- The part of a segment behind its whole sectors is left as it is.
theorem load_filled (d buffer : Mem UInt8) (p n r : Nat) :
    (buffer.store 0 (d.load p n)).load 0 (n + r) = d.load p n ++ buffer.load n r := by
  rw [Mem.load_add, Mem.load_store_same_of_eq _ _ _ _ (Mem.load_length d p n), Nat.zero_add,
    Mem.load_store_disjoint _ _ _ _ _ (by rw [Mem.load_length]; omega)]

-- Two reads deliver the same bytes when they find the same whole sectors.
theorem bytes_filled_inj (d d' : Mem UInt8) (p : Nat) (segs : List BioVec) :
    bytes (filled d p segs) = bytes (filled d' p segs) ↔
      d.load p (sectors segs * RB_SECTOR_SIZE) = d'.load p (sectors segs * RB_SECTOR_SIZE) := by
  induction segs generalizing p with
  | nil => simp [filled, bytes]
  | cons bv bvs ih =>
    have hrest := ih (p + bv.bv_len / RB_SECTOR_SIZE * RB_SECTOR_SIZE)
    simp only [bytes] at hrest
    have hlen : bv.bv_len = bv.bv_len / RB_SECTOR_SIZE * RB_SECTOR_SIZE + bv.bv_len % RB_SECTOR_SIZE :=
      (Nat.div_add_mod' ..).symm
    generalize hn : bv.bv_len / RB_SECTOR_SIZE * RB_SECTOR_SIZE = n at hrest hlen
    rw [sectors_cons, Nat.add_mul, hn, Mem.load_add, Mem.load_add]
    simp only [bytes, filled, List.flatMap_cons, hn]
    rw [hlen, load_filled, load_filled, List.append_assoc, List.append_assoc, Mem.load_append_inj,
      List.append_right_inj, hrest, Mem.load_append_inj]

theorem wholeBytes_length (segs : List BioVec) :
    (wholeBytes segs).length = sectors segs * RB_SECTOR_SIZE := by
  induction segs with
  | nil => simp [wholeBytes]
  | cons bv bvs ih =>
    rw [wholeBytes, List.flatMap_cons, List.length_append, Mem.load_length, sectors_cons, Nat.add_mul,
      ← ih]
    rfl

theorem readsFrom_cons : ReadsFrom S (req :: reqs) ↔
    (req.dir = .READ → ∀ sector, req.Covers sector → sector ∈ S) ∧
      ReadsFrom (if req.dir = .WRITE then S ∪ {sector | req.Covers sector} else S) reqs := by
  have hmem : ∀ pre : List Request, ∀ sector,
      sector ∈ (if req.dir = .WRITE then S ∪ {sector | req.Covers sector} else S) ∨
        (∃ w ∈ pre, w.dir = .WRITE ∧ w.Covers sector) ↔
      sector ∈ S ∨ ∃ w ∈ req :: pre, w.dir = .WRITE ∧ w.Covers sector := by
    intro pre sector
    rw [List.exists_mem_cons_iff, ← or_assoc]
    apply or_congr_left
    by_cases hd : req.dir = .WRITE
    · rw [if_pos hd]
      exact or_congr_right (and_iff_right hd).symm
    · rw [if_neg hd]
      exact (or_iff_left fun h ↦ hd h.1).symm
  constructor
  · intro h
    refine ⟨fun hd sector hc ↦ ?_, fun pre r post hr hd sector hc ↦ ?_⟩
    · rcases h [] req reqs rfl hd sector hc with hS | ⟨w, hw, _⟩
      · exact hS
      · cases hw
    · exact (hmem pre sector).mpr (h (req :: pre) r post (by rw [hr]; rfl) hd sector hc)
  · rintro ⟨hfirst, hrest⟩ pre r post hr hd sector hc
    cases pre with
    | nil =>
      obtain ⟨rfl, rfl⟩ := List.cons.inj hr
      exact Or.inl (hfirst hd sector hc)
    | cons r' pre =>
      obtain ⟨rfl, hr'⟩ := List.cons.inj hr
      exact (hmem pre sector).mp (hrest pre r post hr' hd sector hc)

-- A read is the same over all memories when all its sectors are known.
theorem read_eq_iff (h : Mem.Fills f (sectorBytes S)) :
    (∀ m m', bytes (filled (f m) req.offset req.segs) = bytes (filled (f m') req.offset req.segs)) ↔
      ∀ sector, req.Covers sector → sector ∈ S := by
  simp only [bytes_filled_inj]
  rw [h.load_eq_iff]
  constructor
  · rintro hS sector ⟨hlo, hhi⟩
    have hlt : (sector - req.start_sector) * RB_SECTOR_SIZE < sectors req.segs * RB_SECTOR_SIZE :=
      Nat.mul_lt_mul_of_pos_right (by omega) (by decide)
    have hpos := hS _ hlt
    rw [Request.offset, ← Nat.add_mul, Nat.add_sub_cancel' hlo] at hpos
    have hdiv : sector * RB_SECTOR_SIZE / RB_SECTOR_SIZE = sector := Nat.mul_div_cancel _ (by decide)
    rw [← hdiv]
    exact hpos
  · intro hS i hi
    have hdiv : (req.offset + i) / RB_SECTOR_SIZE = req.start_sector + i / RB_SECTOR_SIZE := by
      rw [Request.offset, Nat.mul_comm, Nat.mul_add_div (by decide)]
    show (req.offset + i) / RB_SECTOR_SIZE ∈ S
    rw [hdiv]
    have hlt : i / RB_SECTOR_SIZE < sectors req.segs := Nat.div_lt_of_lt_mul (by rwa [Nat.mul_comm])
    exact hS _ ⟨Nat.le_add_right .., Nat.add_lt_add_left hlt _⟩

theorem deliveries_eq_iff (h : Mem.Fills f (sectorBytes S)) :
    (∀ m m', deliveries (f m) reqs = deliveries (f m') reqs) ↔ ReadsFrom S reqs := by
  induction reqs generalizing f S with
  | nil => simp [deliveries, ReadsFrom]
  | cons req q ih =>
    rw [readsFrom_cons]
    cases hd : req.dir with
    | READ =>
      simp only [deliveries, hd, if_true, List.cons.injEq, forall_and, ih h, read_eq_iff h]
      simp
    | WRITE =>
      have hnot : (Dir.WRITE = Dir.READ) = False := by simp
      have hstore := (fills_sectors req.start_sector (wholeBytes req.segs) (sectors req.segs)
        (wholeBytes_length _)).comp h
      have hunion : sectorBytes S ∪ sectorBytes {sector | req.Covers sector} =
          sectorBytes (S ∪ {sector | req.Covers sector}) := rfl
      simp only [deliveries, hd, hnot, if_false, if_true, false_implies, true_and]
      exact ih hstore

theorem reads_eq (hin : ∀ req ∈ reqs, req.Inside) (mem : Mem UInt8) :
    reads mem reqs = some (deliveries (copy_mbr_n_br mem) reqs) := by
  rw [← rb_request_deliveries _ hin]
  exact Option.map_eq_bind.symm

/-- The reads of a fresh disk show nothing of the memory it was made of exactly if each of them covers
only sectors of boot records and sectors written before. -/
theorem reads_reveal_nothing_iff (hin : ∀ req ∈ reqs, req.Inside) :
    (∀ mem mem', reads mem reqs = reads mem' reqs) ↔ ReadsWritten reqs := by
  simp only [reads_eq hin, Option.some.injEq]
  exact deliveries_eq_iff fills_init

end Reads

-- A read of the first boot record.
theorem boot_record_reveals_nothing :
    let reqs : List Request := [⟨.READ, 0, 1, [⟨512, fun _ ↦ 0⟩]⟩]
    (∀ req ∈ reqs, req.Inside) ∧ reads (fun _ ↦ 1) reqs = reads (fun _ ↦ 2) reqs := by
  intro reqs
  have hin : ∀ req ∈ reqs, req.Inside := by
    simp [reqs, Request.Inside, sectors, RB_SECTOR_SIZE, RB_DEVICE_SIZE]
  have hwritten : ReadsWritten reqs := by
    apply readsFrom_cons.mpr
    refine ⟨fun _ sector hc ↦ ?_, by simp [ReadsFrom]⟩
    have hlt : sector < 0 + 512 / RB_SECTOR_SIZE := hc.2
    have h0 : sector = 0 := Nat.lt_one_iff.mp hlt
    rw [h0]
    exact List.mem_cons_self ..
  exact ⟨hin, (reads_reveal_nothing_iff hin).mpr hwritten _ _⟩

/-- The second sector of a fresh disk still holds what was in its memory before. -/
theorem old_memory_read :
    let req : Request := ⟨.READ, 1, 1, [⟨512, fun _ ↦ 0⟩]⟩
    req.Inside ∧ req.Whole ∧ reads (fun _ ↦ 1) [req] = some [List.replicate 512 1] ∧
      reads (fun _ ↦ 2) [req] = some [List.replicate 512 2] := by
  intro req
  have hin : req.Inside := by simp [req, Request.Inside, sectors, RB_SECTOR_SIZE, RB_DEVICE_SIZE]
  have hw : req.Whole := by simp [req, Request.Whole, RB_SECTOR_SIZE]
  have hoff : req.offset = 512 := by decide
  have hsum : (req.segs.map BioVec.bv_len).sum = 512 := by simp [req]
  have hread : ∀ b : UInt8, reads (fun _ ↦ b) [req] = some [List.replicate 512 b] := by
    intro b
    have hload : (copy_mbr_n_br fun _ ↦ b).load 512 512 = List.replicate 512 b := by
      have hold : ∀ i < 512, copy_mbr_n_br (fun _ ↦ b) (512 + i) = b := by
        intro i hi
        apply fills_init.outside
        rw [show 512 + i = 1 * RB_SECTOR_SIZE + i from rfl, mem_sectorBytes hi]
        decide
      rw [Mem.load, List.map_congr_left fun i hi ↦ hold i (List.mem_range.mp hi)]
      simp
    have hbytes : bytes (filled (copy_mbr_n_br fun _ ↦ b) req.offset req.segs) =
        List.replicate 512 b := by
      rw [filled_bytes _ _ hw.1, hoff, hsum, hload]
    rw [reads_eq (by simpa using hin), deliveries, if_pos rfl, deliveries, hbytes]
  exact ⟨hin, hw, hread 1, hread 2⟩

end OK210Drivers.RamDisk
