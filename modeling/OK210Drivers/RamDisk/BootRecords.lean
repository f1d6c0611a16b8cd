import OK210Drivers.RamDisk.Partition
import OK210Drivers.RamDisk.PartitionInfo

/-!
# Boot records decode to their partition tables

`copy_br` stores one record of 512 bytes, and `partition_info` finds in such a record the entries
that were laid out into it.  Records of distinct cylinders have distinct sectors.
-/

open Library

namespace OK210Drivers.RamDisk

/-- The first byte of a cylinder's boot record. -/
def brBase (cyl : Nat) : Nat := cyl * 32 * RB_SECTOR_SIZE

/-- What `copy_br` leaves in the sector. -/
def bootRecord (t : PartTable) : List UInt8 :=
  List.replicate PARTITION_TABLE_OFFSET 0 ++ t.bytes ++ leBytes 2 BR_SIGNATURE

/-- What `copy_mbr` leaves in the first sector. -/
def masterRecord : List UInt8 :=
  List.replicate MBR_DISK_SIGNATURE_OFFSET 0 ++ leBytes 4 0x36E5756D#32 ++ List.replicate 2 0 ++
    def_part_table.bytes ++ leBytes 2 MBR_SIGNATURE

/-- `partition_info` reads an entry as the driver wrote it: every field, and the 10-bit cylinders put
together again. -/
structure SameEntry (e : PartitionInfo.PartEntry) (p : PartEntry) : Prop where
  boot_type : e.boot_type = p.boot_type
  start_head : e.start_head = p.start_head
  start_sec : e.start_sec = p.start_sec
  start_cyl : PartitionInfo.printed_cylinder e.start_cyl_hi e.start_cyl =
    1 + (p.start_cyl_hi ++ p.start_cyl).setWidth 32
  part_type : e.part_type = p.part_type
  end_head : e.end_head = p.end_head
  end_sec : e.end_sec = p.end_sec
  end_cyl : PartitionInfo.printed_cylinder e.end_cyl_hi e.end_cyl =
    1 + (p.end_cyl_hi ++ p.end_cyl).setWidth 32
  abs_start_sec : e.abs_start_sec = p.abs_start_sec
  sec_in_part : e.sec_in_part = p.sec_in_part

/-- The sector from `base` on reads as a record with this table. -/
def Decodes (disk : Mem UInt8) (base : Nat) (t : PartTable) : Prop :=
  let m := PartitionInfo.MBR.read fun i ↦ disk (base + i)
  m.signature = 0xAA55#16 ∧ ∀ i (hi : i < 4), SameEntry (m.entry i) t[i]

/-! ## What is stored -/

theorem bootRecord_length (t : PartTable) : (bootRecord t).length = RB_SECTOR_SIZE := by
  simp only [bootRecord, List.length_append, List.length_replicate, PartTable.bytes_length,
    leBytes_length]
  rfl

theorem masterRecord_length : masterRecord.length = RB_SECTOR_SIZE := by
  simp only [masterRecord, List.length_append, List.length_replicate, PartTable.bytes_length,
    leBytes_length]
  rfl

-- A cleared record, cut where the parts go.
theorem replicate_three (a b c : Nat) : List.replicate (a + b + c) (0 : UInt8) =
    List.replicate a 0 ++ List.replicate b 0 ++ List.replicate c 0 := by
  rw [List.replicate_append_replicate, List.replicate_append_replicate]

theorem copy_br_eq (disk : Mem UInt8) (cyl : Nat) (t : PartTable) :
    copy_br disk cyl t = disk.store (brBase cyl) (bootRecord t) := by
  have htable := Mem.store_store_part disk (brBase cyl) (List.replicate 446 0)
    (List.replicate 64 0) (List.replicate 2 0) t.bytes (by simp [PARTITION_TABLE_SIZE])
  have hsig := Mem.store_store_part disk (brBase cyl) (List.replicate 446 0 ++ t.bytes)
    (List.replicate 2 0) [] (leBytes 2 BR_SIGNATURE) (by simp)
  rw [← replicate_three, List.length_replicate] at htable
  rw [List.append_nil, List.append_nil, List.length_append, List.length_replicate,
    PartTable.bytes_length] at hsig
  show ((disk.store (brBase cyl) (List.replicate (446 + 64 + 2) 0)).store (brBase cyl + 446)
    t.bytes).store (brBase cyl + (446 + 64)) (leBytes 2 BR_SIGNATURE) = _
  rw [htable]
  exact hsig

theorem copy_mbr_eq (disk : Mem UInt8) : copy_mbr disk = disk.store 0 masterRecord := by
  have hdisk := Mem.store_store_part disk 0 (List.replicate 440 0) (List.replicate 4 0)
    (List.replicate 68 0) (leBytes 4 0x36E5756D#32) (by simp)
  have htable := Mem.store_store_part disk 0
    (List.replicate 440 0 ++ leBytes 4 0x36E5756D#32 ++ List.replicate 2 0) (List.replicate 64 0)
    (List.replicate 2 0) def_part_table.bytes (by simp [PARTITION_TABLE_SIZE])
  have hsig := Mem.store_store_part disk 0
    (List.replicate 440 0 ++ leBytes 4 0x36E5756D#32 ++ List.replicate 2 0 ++ def_part_table.bytes)
    (List.replicate 2 0) [] (leBytes 2 MBR_SIGNATURE) (by simp)
  have hcut : List.replicate 68 (0 : UInt8) =
      List.replicate 2 0 ++ List.replicate 64 0 ++ List.replicate 2 0 := replicate_three 2 64 2
  have hlen₁ : (List.replicate 440 0 ++ leBytes 4 0x36E5756D#32 ++ List.replicate 2 0).length =
      446 := by simp only [List.length_append, List.length_replicate, leBytes_length]
  have hlen₂ : (List.replicate 440 0 ++ leBytes 4 0x36E5756D#32 ++ List.replicate 2 0 ++
      def_part_table.bytes).length = 510 := by
    rw [List.length_append, hlen₁, PartTable.bytes_length]
    rfl
  rw [← replicate_three, List.length_replicate, hcut] at hdisk
  simp only [← List.append_assoc] at hdisk
  rw [hlen₁] at htable
  rw [hlen₂, List.append_nil, List.append_nil] at hsig
  rw [Nat.zero_add] at hdisk htable hsig
  show (((disk.store 0 (List.replicate (440 + 4 + 68) 0)).store 440 _).store 446 _).store 510 _ = _
  rw [hdisk, htable, hsig]
  rfl

/-! ## What is read -/

theorem ofDigits_leBytes {w : Nat} (n : Nat) (x : BitVec w) :
    Nat.ofDigits 256 ((leBytes n x).map UInt8.toNat) = x.toNat % 256 ^ n := by
  have hbyte : UInt8.toNat ∘ (fun i ↦ UInt8.ofBitVec (x.extractLsb' (8 * i) 8)) =
      fun i ↦ x.toNat / 256 ^ i % 256 := by
    funext i
    show (x.extractLsb' (8 * i) 8).toNat = _
    rw [BitVec.extractLsb'_toNat, Nat.shiftRight_eq_div_pow, Nat.pow_mul]
  rw [leBytes, List.map_map, hbyte, PartitionInfo.ofDigits_bytes]

theorem readLe_eq {m : Mem UInt8} {p : Nat} {x : BitVec 32} (h : m.load p 4 = leBytes 4 x) :
    BitVec.ofNat 32 (PartitionInfo.readLe m p 4) = x := by
  apply BitVec.eq_of_toNat_eq
  have hlt := x.isLt
  rw [PartitionInfo.readLe, h, ofDigits_leBytes, BitVec.toNat_ofNat]
  omega

-- Blocks of one length are found at the multiples of it.
theorem take_drop_flatMap {α β : Type*} {f : α → List β} {n : Nat} (hf : ∀ x, (f x).length = n)
    (l : List α) (rest : List β) (i : Nat) (hi : i < l.length) :
    ((l.flatMap f ++ rest).drop (i * n)).take n = f l[i] := by
  induction l generalizing i with
  | nil => exact absurd hi (Nat.not_lt_zero i)
  | cons x l ih =>
    rw [List.flatMap_cons, List.append_assoc]
    cases i with
    | zero =>
      rw [Nat.zero_mul, List.drop_zero, List.take_left' (hf x)]
      rfl
    | succ i =>
      rw [Nat.succ_mul, Nat.add_comm, ← List.drop_drop, List.drop_left' (hf x)]
      exact ih i (Nat.lt_of_succ_lt_succ hi)

theorem printed_cylinder_eq (hi : BitVec 2) (lo : BitVec 8) :
    PartitionInfo.printed_cylinder hi lo = 1 + (hi ++ lo).setWidth 32 := by
  rw [PartitionInfo.printed_cylinder]
  congr 1
  apply BitVec.eq_of_getLsbD_eq
  intro i hi'
  simp only [BitVec.getLsbD_or, BitVec.getLsbD_shiftLeft, BitVec.getLsbD_setWidth,
    BitVec.getLsbD_append]
  by_cases h8 : i < 8
  · simp [h8, hi']
  · have hlo : lo.getLsbD i = false := BitVec.getLsbD_of_ge lo i (by omega)
    have h32 : i - 8 < 32 := by omega
    simp [h8, hi', hlo, h32]

/-- An entry is read as it was laid out. -/
theorem sameEntry_read {m : Mem UInt8} {p : Nat} {q : PartEntry} (h : m.load p 16 = q.bytes) :
    SameEntry (PartitionInfo.PartEntry.read m p) q := by
  rw [Mem.load_add m p 12 4, Mem.load_add m p 8 4, PartEntry.bytes] at h
  obtain ⟨hrest, hsec⟩ := List.append_inj h (by simp)
  obtain ⟨hhead, habs⟩ := List.append_inj hrest (by simp)
  have hload : m.load p 8 = [m p, m (p + 1), m (p + 2), m (p + 3), m (p + 4), m (p + 5), m (p + 6),
    m (p + 7)] := rfl
  simp only [hload, List.map_cons, List.map_nil, List.cons.injEq, and_true] at hhead
  obtain ⟨h0, h1, h2, h3, h4, h5, h6, h7⟩ := hhead
  have hlow (hi : BitVec 2) (sec : BitVec 6) : (hi ++ sec).extractLsb' 0 6 = sec := by
    rw [BitVec.extractLsb'_append_eq_of_add_le (by decide), BitVec.extractLsb'_eq_self]
  have hhigh (hi : BitVec 2) (sec : BitVec 6) : (hi ++ sec).extractLsb' 6 2 = hi := by
    rw [BitVec.extractLsb'_append_eq_of_le (by decide)]
    exact BitVec.extractLsb'_eq_self
  refine ⟨?_, ?_, ?_, ?_, ?_, ?_, ?_, ?_, readLe_eq habs, readLe_eq hsec⟩
  all_goals simp only [PartitionInfo.PartEntry.read, h0, h1, h2, h3, h4, h5, h6, h7, hlow, hhigh,
    printed_cylinder_eq]

/-- The sector from `base` on holds a table and the signature behind it. -/
def HoldsRecord (disk : Mem UInt8) (base : Nat) (t : PartTable) : Prop :=
  ∃ boot : List UInt8, boot.length = PARTITION_TABLE_OFFSET ∧
    disk.load base RB_SECTOR_SIZE = boot ++ t.bytes ++ leBytes 2 BR_SIGNATURE

theorem HoldsRecord.congr {disk disk' : Mem UInt8} {base : Nat} {t : PartTable}
    (h : HoldsRecord disk base t) (hd : ∀ i < RB_SECTOR_SIZE, disk' (base + i) = disk (base + i)) :
    HoldsRecord disk' base t := by
  obtain ⟨boot, hboot, hload⟩ := h
  exact ⟨boot, hboot, (Mem.load_congr hd).trans hload⟩

/-- A record decodes to the table in it, whatever is stored in front of the table. -/
theorem HoldsRecord.decodes {disk : Mem UInt8} {base : Nat} {t : PartTable}
    (h : HoldsRecord disk base t) : Decodes disk base t := by
  obtain ⟨boot, hboot, hload⟩ := h
  have hwin (i n : Nat) (hin : i + n ≤ 512) : Mem.load (fun j ↦ disk (base + j)) i n =
      ((boot ++ t.bytes ++ leBytes 2 BR_SIGNATURE).drop i).take n := by
    rw [← hload]
    apply List.ext_getElem
    · rw [Mem.load_length, List.length_take, List.length_drop, Mem.load_length]
      show n = min n (512 - i)
      omega
    · intro j hj _
      rw [Mem.load_getElem, List.getElem_take, List.getElem_drop, Mem.load_getElem]
  refine ⟨?_, fun i hi ↦ sameEntry_read ?_⟩
  · have hsig := hwin 510 2 (by decide)
    rw [List.drop_left' (by rw [List.length_append, hboot, PartTable.bytes_length]; rfl),
      List.take_of_length_le (by simp)] at hsig
    show BitVec.ofNat 16 (PartitionInfo.readLe _ 510 2) = _
    rw [PartitionInfo.readLe, hsig, ofDigits_leBytes]
    rfl
  · have hentry := hwin (PARTITION_TABLE_OFFSET + i * PARTITION_ENTRY_SIZE) PARTITION_ENTRY_SIZE
      (by show 446 + i * 16 + 16 ≤ 512; omega)
    have hi' : i < t.toList.length := by rwa [Vector.length_toList]
    rw [List.append_assoc, ← List.drop_drop, List.drop_left' hboot, PartTable.bytes,
      take_drop_flatMap PartEntry.bytes_length _ _ i hi', Vector.getElem_toList] at hentry
    rw [← hentry]
    apply Mem.load_congr_at
    intro j _
    show disk (base + (446 + (i * 16 + j))) = disk (base + (446 + i * 16 + j))
    rw [Nat.add_assoc 446]

/-! ## One record and the others -/

theorem copy_br_holds (disk : Mem UInt8) (cyl : Nat) (t : PartTable) :
    HoldsRecord (copy_br disk cyl t) (brBase cyl) t := by
  refine ⟨List.replicate PARTITION_TABLE_OFFSET 0, List.length_replicate, ?_⟩
  rw [copy_br_eq, ← bootRecord_length t]
  exact Mem.load_store_same ..

theorem copy_mbr_holds (disk : Mem UInt8) : HoldsRecord (copy_mbr disk) 0 def_part_table := by
  refine ⟨List.replicate MBR_DISK_SIGNATURE_OFFSET 0 ++ leBytes 4 0x36E5756D#32 ++
    List.replicate 2 0, ?_, ?_⟩
  · simp only [List.length_append, List.length_replicate, leBytes_length]
    rfl
  · rw [copy_mbr_eq, ← masterRecord_length]
    exact Mem.load_store_same ..

/-- A boot record changes only its own sector. -/
theorem copy_br_frame (disk : Mem UInt8) (cyl : Nat) (t : PartTable) (a : Nat)
    (h : a < brBase cyl ∨ brBase cyl + RB_SECTOR_SIZE ≤ a) : copy_br disk cyl t a = disk a := by
  rw [copy_br_eq]
  apply Mem.store_outside
  rwa [bootRecord_length]

-- The sectors of distinct cylinders are disjoint.
theorem brBase_disjoint {c c' : Nat} (h : c ≠ c') :
    brBase c + RB_SECTOR_SIZE ≤ brBase c' ∨ brBase c' + RB_SECTOR_SIZE ≤ brBase c := by
  simp only [brBase, RB_SECTOR_SIZE]
  omega

theorem copy_br_comm (disk : Mem UInt8) {c c' : Nat} (h : c ≠ c') (t t' : PartTable) :
    copy_br (copy_br disk c t) c' t' = copy_br (copy_br disk c' t') c t := by
  simp only [copy_br_eq]
  apply Mem.store_store_disjoint
  rw [bootRecord_length, bootRecord_length]
  exact brBase_disjoint h

theorem HoldsRecord.copy_br {disk : Mem UInt8} {base : Nat} {t : PartTable}
    (h : HoldsRecord disk base t) {cyl : Nat}
    (hne : base + RB_SECTOR_SIZE ≤ brBase cyl ∨ brBase cyl + RB_SECTOR_SIZE ≤ base)
    (t' : PartTable) : HoldsRecord (copy_br disk cyl t') base t := by
  apply h.congr
  intro i hi
  apply copy_br_frame
  omega

/-! ## The loop -/

theorem copy_brs_cons (disk : Mem UInt8) (br : Nat × PartTable) (brs : List (Nat × PartTable)) :
    copy_brs disk (br :: brs) = copy_brs (copy_br disk br.1 br.2) brs := rfl

-- The loop keeps the records of other cylinders.
theorem HoldsRecord.copy_brs {disk : Mem UInt8} {base : Nat} {t : PartTable}
    (h : HoldsRecord disk base t) {brs : List (Nat × PartTable)}
    (hne : ∀ br ∈ brs, base + RB_SECTOR_SIZE ≤ brBase br.1 ∨
      brBase br.1 + RB_SECTOR_SIZE ≤ base) : HoldsRecord (copy_brs disk brs) base t := by
  induction brs generalizing disk with
  | nil => exact h
  | cons br brs ih =>
    rw [List.forall_mem_cons] at hne
    exact ih (h.copy_br hne.1 br.2) hne.2

theorem copy_brs_holds (disk : Mem UInt8) {brs : List (Nat × PartTable)}
    (hnodup : (brs.map Prod.fst).Nodup) :
    ∀ br ∈ brs, HoldsRecord (copy_brs disk brs) (brBase br.1) br.2 := by
  induction brs generalizing disk with
  | nil => nofun
  | cons br brs ih =>
    rw [List.map_cons, List.nodup_cons] at hnodup
    rw [List.forall_mem_cons, copy_brs_cons]
    refine ⟨(copy_br_holds disk br.1 br.2).copy_brs fun br' hbr' ↦ ?_, ih _ hnodup.2⟩
    apply brBase_disjoint
    intro he
    exact hnodup.1 (he ▸ List.mem_map_of_mem hbr')

/-- The order in which the records of distinct cylinders are written does not matter. -/
theorem copy_brs_perm {brs brs' : List (Nat × PartTable)} (h : brs.Perm brs')
    (hnodup : (brs.map Prod.fst).Nodup) (disk : Mem UInt8) :
    copy_brs disk brs = copy_brs disk brs' := by
  induction h generalizing disk with
  | nil => rfl
  | cons br _ ih =>
    rw [copy_brs_cons, copy_brs_cons]
    exact ih (List.nodup_cons.mp hnodup).2 _
  | swap br br' brs =>
    have hne : br'.1 ≠ br.1 := by
      intro he
      exact (List.nodup_cons.mp hnodup).1 (he ▸ List.mem_cons_self)
    simp only [copy_brs_cons]
    rw [copy_br_comm disk hne]
  | trans h₁ _ ih₁ ih₂ =>
    rw [ih₁ hnodup]
    exact ih₂ ((h₁.map Prod.fst).nodup_iff.mp hnodup) disk

/-- A boot record changes only its own sector and decodes to its table; records of distinct cylinders
may be written in any order, and all of them then decode, as those of `copy_mbr_n_br` do next to the
master boot record. -/
theorem boot_records_decode (disk : Mem UInt8) :
    (∀ cyl < 32, ∀ t, (∀ a, a / RB_SECTOR_SIZE ≠ 32 * cyl → copy_br disk cyl t a = disk a) ∧
      32 * cyl < RB_DEVICE_SIZE ∧ Decodes (copy_br disk cyl t) (32 * cyl * RB_SECTOR_SIZE) t) ∧
    (∀ c c' t t', c ≠ c' →
      copy_br (copy_br disk c t) c' t' = copy_br (copy_br disk c' t') c t) ∧
    (∀ brs brs' : List (Nat × PartTable), (brs.map Prod.fst).Nodup → brs'.Perm brs →
      copy_brs disk brs' = copy_brs disk brs ∧
        ∀ br ∈ brs, Decodes (copy_brs disk brs') (32 * br.1 * RB_SECTOR_SIZE) br.2) ∧
    Decodes (copy_mbr_n_br disk) 0 def_part_table ∧
    ∀ br ∈ def_log_part_br_cyl.zip def_log_part_table,
      Decodes (copy_mbr_n_br disk) (32 * br.1 * RB_SECTOR_SIZE) br.2 := by
  have hbase (cyl : Nat) : 32 * cyl * RB_SECTOR_SIZE = brBase cyl := by
    rw [brBase, Nat.mul_comm 32]
  have hcyls : ((def_log_part_br_cyl.zip def_log_part_table).map Prod.fst).Nodup := by decide
  simp only [hbase]
  refine ⟨fun cyl hcyl t ↦ ⟨fun a ha ↦ ?_, ?_, (copy_br_holds disk cyl t).decodes⟩,
    fun c c' t t' h ↦ copy_br_comm disk h t t', fun brs brs' hnodup hperm ↦ ?_, ?_, ?_⟩
  · apply copy_br_frame
    simp only [brBase, RB_SECTOR_SIZE] at ha ⊢
    omega
  · show 32 * cyl < 1024
    omega
  · have heq := copy_brs_perm hperm.symm hnodup disk
    refine ⟨heq.symm, fun br hbr ↦ ?_⟩
    rw [← heq]
    exact (copy_brs_holds disk hnodup br hbr).decodes
  · exact ((copy_mbr_holds disk).copy_brs (by decide)).decodes
  · exact fun br hbr ↦ (copy_brs_holds (copy_mbr disk) hcyls br hbr).decodes

-- A table of one entry, written to the last cylinder.
theorem boot_records_decode_last : Decodes
    (copy_br (fun _ ↦ 1) 31 #v[{ start_cyl_hi := 2, start_cyl := 9, abs_start_sec := 7 }, {}, {}, {}])
    (32 * 31 * RB_SECTOR_SIZE)
    #v[{ start_cyl_hi := 2, start_cyl := 9, abs_start_sec := 7 }, {}, {}, {}] :=
  ((boot_records_decode fun _ ↦ 1).1 31 (by decide) _).2.2

end OK210Drivers.RamDisk
