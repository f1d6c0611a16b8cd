import Mathlib.Tactic.IntervalCases
import OK210Drivers.Nand.Pages

/-!
# The detection of a chip

How `s3c_nand_probe` picks the ECC configuration from the four ID bytes of a chip and the entry of
`nand_flash_ids` for its device ID.
-/

namespace OK210Drivers.Nand

/-- `struct nand_flash_dev`; a page size of 0 leaves it to the ID bytes. -/
structure NandFlashDev where
  id : Nat
  pagesize : Nat
  deriving DecidableEq

/-- The bytes that follow `NAND_CMD_READID`. -/
structure IdBytes where
  manuf : Byte
  dev_id : Byte
  cellinfo : Byte
  ext : Byte

/-- The global `nand_type` and what the probe sets in the chip structure.  `page_functions` stands for
`read_page` and `write_page`, `oob_functions` for `read_oob` and `write_oob`. -/
structure Settings where
  nand_type : NandType
  cellinfo : Byte
  no_subpage_write : Bool
  size : Nat
  bytes : Nat
  layout : Option Layout
  page_functions : Option Format
  oob_functions : Option Format

/-- The loop over `nand_flash_ids`, up to the entry without a name. -/
def lookup (nand_flash_ids : List NandFlashDev) (dev_id : Byte) : Option NandFlashDev :=
  nand_flash_ids.find? fun d ↦ dev_id.toNat = d.id

/-- `type` behind the lookup: an earlier chip's entry stays when there is none for this one. -/
def find_type (nand_flash_ids : List NandFlashDev) (chip : IdBytes) (type : Option NandFlashDev) :
    Option NandFlashDev :=
  match lookup nand_flash_ids chip.dev_id with
  | some d => some d
  | none => type

/-- The settings of the 8-bit format, but for the layout. -/
def set_8bit (s : Settings) : Settings :=
  { s with nand_type := .mlc8, page_functions := some .bit8, size := 512, bytes := 13 }

/-- The settings for a chip whose page size is left to the ID bytes. -/
def set_by_id (chip : IdBytes) (s : Settings) : Settings :=
  if (chip.cellinfo >>> 2) &&& 0x3 = 0 then
    let s := { s with nand_type := .slc, size := 512, bytes := 4 }
    if 1024 <<< (chip.ext &&& 0x3).toNat > 512 then
      { s with
        page_functions := some .bit1
        oob_functions := some .bit1
        layout := some s3c_nand_oob_64 }
    else { s with layout := some s3c_nand_oob_16 }
  else if chip.dev_id = 0xd5 then
    let s := set_8bit s
    if chip.cellinfo = 0x94 then { s with layout := some s3c_nand_oob_mlc_128_8bit }
    else if chip.cellinfo = 0x14 then { s with layout := some s3c_nand_oob_mlc_128_8bit }
    else if chip.cellinfo = 0x84 then { s with layout := some s3c_nand_oob_mlc_232_8bit }
    else s
  else if chip.dev_id = 0xd7 then
    { set_8bit s with layout := some s3c_nand_oob_mlc_128_8bit }
  else if chip.dev_id = 0xd3 then
    { s with
      nand_type := .mlc4
      no_subpage_write := true
      page_functions := some .bit4
      size := 512
      bytes := 8
      layout := some s3c_nand_oob_mlc_64 }
  else s

/-- The settings for a chip whose page size is in the table. -/
def set_by_table (chip : IdBytes) (s : Settings) : Settings :=
  if chip.dev_id = 0xd7 then { set_8bit s with layout := some s3c_nand_oob_mlc_128_8bit }
  else if chip.manuf = 0x2c ∧ chip.dev_id = 0x48 then
    { set_8bit s with layout := some s3c_nand_oob_mlc_128_8bit }
  else if chip.manuf = 0x2c ∧ chip.dev_id = 0x38 then
    { set_8bit s with layout := some s3c_nand_oob_mlc_128_8bit }
  else
    { s with nand_type := .slc, size := 512, cellinfo := 0, bytes := 4, layout := some s3c_nand_oob_16 }

/-- The settings for a chip with the table entry `d`. -/
def configure (chip : IdBytes) (d : NandFlashDev) (s : Settings) : Settings :=
  let s := { s with no_subpage_write := false, cellinfo := chip.cellinfo }
  if d.pagesize = 0 then set_by_id chip s else set_by_table chip s

/-- The detection of a chip, with the `type` and the settings that earlier chips have left; without a
result when there is no `type`. -/
def detect (nand_flash_ids : List NandFlashDev) (chip : IdBytes) (type : Option NandFlashDev)
    (s : Settings) : Option (NandFlashDev × Settings) :=
  (find_type nand_flash_ids chip type).map fun d ↦ (d, configure chip d s)

/-- The page size in the fourth ID byte. -/
def page_size (chip : IdBytes) : Nat := 1024 <<< (chip.ext &&& 0x3).toNat

/-- The layout has room for the codes of a page. -/
def Fits (page size bytes : Nat) (l : Layout) : Prop := page / size * bytes ≤ l.eccbytes

instance (page size bytes : Nat) (l : Layout) : Decidable (Fits page size bytes l) :=
  inferInstanceAs (Decidable (_ ≤ _))

/-- A chip with the table entry `d` gets a complete ECC configuration, whatever `nand_type` was before. -/
structure Complete (chip : IdBytes) (d : NandFlashDev) (s : Settings) : Prop where
  sets_type : ∀ u, (configure chip d { s with nand_type := u }).nand_type =
    (configure chip d s).nand_type
  size_pos : 0 < (configure chip d s).size
  bytes_pos : 0 < (configure chip d s).bytes
  layout : ∃ l, (configure chip d s).layout = some l ∧ (d.pagesize = 0 →
    Fits (page_size chip) (configure chip d s).size (configure chip d s).bytes l)

/-- The chips that the decision tree covers: those with the page size in the table, SLC and 4-bit MLC
chips with pages of at most 2048 bytes, and 8-bit MLC chips with pages of at most 4096 bytes, or of 8192
with a layout for them.  `left` is the layout that an earlier chip has left. -/
def Covered (chip : IdBytes) (d : NandFlashDev) (left : Option Layout) : Prop :=
  d.pagesize = 0 →
    if (chip.cellinfo >>> 2) &&& 0x3 = 0 then page_size chip ≤ 2048
    else if chip.dev_id = 0xd5 then
      if chip.cellinfo = 0x94 ∨ chip.cellinfo = 0x14 then page_size chip ≤ 4096
      else chip.cellinfo = 0x84 ∨ ∃ l, left = some l ∧ Fits (page_size chip) 512 13 l
    else if chip.dev_id = 0xd7 then page_size chip ≤ 4096
    else chip.dev_id = 0xd3 ∧ page_size chip ≤ 2048

section Detect

variable {chip : IdBytes} {d : NandFlashDev} {s : Settings}

theorem page_size_cases (chip : IdBytes) : page_size chip = 1024 ∨ page_size chip = 2048 ∨
    page_size chip = 4096 ∨ page_size chip = 8192 := by
  have hlt : (chip.ext &&& 0x3).toNat < 4 := by
    rw [BitVec.toNat_and]
    exact Nat.lt_of_le_of_lt Nat.and_le_right (by decide)
  unfold page_size
  generalize (chip.ext &&& 0x3).toNat = k at hlt
  interval_cases k <;> simp

theorem fits_iff {l : Layout} {bytes page : Nat} (hroom : ∀ p ∈ [1024, 2048, 4096, 8192],
    (Fits p 512 bytes l ↔ p ≤ page)) : Fits (page_size chip) 512 bytes l ↔ page_size chip ≤ page := by
  apply hroom
  rcases page_size_cases chip with h | h | h | h <;> rw [h] <;> decide

/-- The settings of a branch of the tree, for any `nand_type` before. -/
def Configured (chip : IdBytes) (d : NandFlashDev) (s : Settings) (type : NandType) (bytes : Nat)
    (layout : Option Layout) : Prop :=
  ∀ u, (configure chip d { s with nand_type := u }).nand_type = type ∧
    (configure chip d { s with nand_type := u }).size = 512 ∧
    (configure chip d { s with nand_type := u }).bytes = bytes ∧
    (configure chip d { s with nand_type := u }).layout = layout

theorem Configured.complete_iff {type : NandType} {bytes : Nat} {layout : Option Layout}
    (h : Configured chip d s type bytes layout) (hbytes : 0 < bytes) : Complete chip d s ↔
      ∃ l, layout = some l ∧ (d.pagesize = 0 → Fits (page_size chip) 512 bytes l) := by
  obtain ⟨htype, hsize, hb, hlayout⟩ := h s.nand_type
  constructor
  · intro hc
    obtain ⟨l, hl, hfit⟩ := hc.layout
    rw [← hsize, ← hb, ← hlayout]
    exact ⟨l, hl, hfit⟩
  · rintro ⟨l, hl, hfit⟩
    rw [← hsize, ← hb] at hfit
    refine ⟨fun u ↦ (h u).1.trans htype.symm, ?_, ?_, l, hlayout.trans hl, hfit⟩
    · rw [hsize]
      decide
    · rw [hb]
      exact hbytes

theorem Configured.complete_some_iff {type : NandType} {bytes page : Nat} {l : Layout}
    (h : Configured chip d s type bytes (some l)) (hbytes : 0 < bytes) (hd : d.pagesize = 0)
    (hroom : ∀ p ∈ [1024, 2048, 4096, 8192], (Fits p 512 bytes l ↔ p ≤ page)) :
    Complete chip d s ↔ page_size chip ≤ page := by
  rw [h.complete_iff hbytes, ← fits_iff hroom]
  constructor
  · rintro ⟨_, hl, hfit⟩
    cases hl
    exact hfit hd
  · intro hfit
    exact ⟨l, rfl, fun _ ↦ hfit⟩

theorem complete_by_table (hd : d.pagesize ≠ 0) : Complete chip d s := by
  have hany : ∃ type bytes l, 0 < bytes ∧ Configured chip d s type bytes (some l) := by
    unfold Configured configure set_by_table
    simp only [if_neg hd]
    split
    · exact ⟨.mlc8, 13, _, by decide, fun _ ↦ ⟨rfl, rfl, rfl, rfl⟩⟩
    split
    · exact ⟨.mlc8, 13, _, by decide, fun _ ↦ ⟨rfl, rfl, rfl, rfl⟩⟩
    split
    · exact ⟨.mlc8, 13, _, by decide, fun _ ↦ ⟨rfl, rfl, rfl, rfl⟩⟩
    · exact ⟨.slc, 4, _, by decide, fun _ ↦ ⟨rfl, rfl, rfl, rfl⟩⟩
  obtain ⟨type, bytes, l, hbytes, hconf⟩ := hany
  exact (hconf.complete_iff hbytes).mpr ⟨l, rfl, fun h ↦ absurd h hd⟩

theorem complete_slc (hd : d.pagesize = 0) (hcell : (chip.cellinfo >>> 2) &&& 0x3 = 0) :
    Complete chip d s ↔ page_size chip ≤ 2048 := by
  have hbig : 1024 <<< (chip.ext &&& 0x3).toNat > 512 := by
    show page_size chip > 512
    rcases page_size_cases chip with h | h | h | h <;> omega
  have hconf : Configured chip d s .slc 4 (some s3c_nand_oob_64) := by
    unfold Configured configure set_by_id
    simp only [if_pos hd, if_pos hcell, if_pos hbig, and_self, implies_true]
  exact hconf.complete_some_iff (by decide) hd (by decide)

theorem complete_d5 (hd : d.pagesize = 0) (hcell : (chip.cellinfo >>> 2) &&& 0x3 ≠ 0)
    (hdev : chip.dev_id = 0xd5) : Complete chip d s ↔
      if chip.cellinfo = 0x94 ∨ chip.cellinfo = 0x14 then page_size chip ≤ 4096
      else chip.cellinfo = 0x84 ∨ ∃ l, s.layout = some l ∧ Fits (page_size chip) 512 13 l := by
  have hconf : Configured chip d s .mlc8 13 (if chip.cellinfo = 0x94 then some s3c_nand_oob_mlc_128_8bit
      else if chip.cellinfo = 0x14 then some s3c_nand_oob_mlc_128_8bit
      else if chip.cellinfo = 0x84 then some s3c_nand_oob_mlc_232_8bit else s.layout) := by
    unfold Configured configure set_by_id
    simp only [if_pos hd, if_neg hcell, if_pos hdev]
    intro u
    split
    · exact ⟨rfl, rfl, rfl, rfl⟩
    split
    · exact ⟨rfl, rfl, rfl, rfl⟩
    split <;> exact ⟨rfl, rfl, rfl, rfl⟩
  by_cases h94 : chip.cellinfo = 0x94
  · rw [if_pos h94] at hconf
    rw [if_pos (Or.inl h94)]
    exact hconf.complete_some_iff (by decide) hd (by decide)
  rw [if_neg h94] at hconf
  by_cases h14 : chip.cellinfo = 0x14
  · rw [if_pos h14] at hconf
    rw [if_pos (Or.inr h14)]
    exact hconf.complete_some_iff (by decide) hd (by decide)
  rw [if_neg h14] at hconf
  rw [if_neg (not_or.mpr ⟨h94, h14⟩)]
  by_cases h84 : chip.cellinfo = 0x84
  · rw [if_pos h84] at hconf
    have hle : page_size chip ≤ 8192 := by
      rcases page_size_cases chip with h | h | h | h <;> omega
    exact iff_of_true ((hconf.complete_some_iff (by decide) hd (by decide)).mpr hle) (Or.inl h84)
  · rw [if_neg h84] at hconf
    rw [hconf.complete_iff (by decide), or_iff_right h84]
    simp only [hd, forall_const]

theorem complete_other (hd : d.pagesize = 0) (hcell : (chip.cellinfo >>> 2) &&& 0x3 ≠ 0)
    (hdev : chip.dev_id ≠ 0xd5) : Complete chip d s ↔
      if chip.dev_id = 0xd7 then page_size chip ≤ 4096
      else chip.dev_id = 0xd3 ∧ page_size chip ≤ 2048 := by
  by_cases h7 : chip.dev_id = 0xd7
  · have hconf : Configured chip d s .mlc8 13 (some s3c_nand_oob_mlc_128_8bit) := by
      unfold Configured configure set_by_id
      simp only [if_pos hd, if_neg hcell, if_neg hdev, if_pos h7]
      exact fun _ ↦ ⟨rfl, rfl, rfl, trivial⟩
    rw [if_pos h7]
    exact hconf.complete_some_iff (by decide) hd (by decide)
  rw [if_neg h7]
  by_cases h3 : chip.dev_id = 0xd3
  · have hconf : Configured chip d s .mlc4 8 (some s3c_nand_oob_mlc_64) := by
      unfold Configured configure set_by_id
      simp only [if_pos hd, if_neg hcell, if_neg hdev, if_neg h7, if_pos h3, and_self, implies_true]
    rw [and_iff_right h3]
    exact hconf.complete_some_iff (by decide) hd (by decide)
  · -- nothing is set, `nand_type` included
    have hkeep : ∀ u, (configure chip d { s with nand_type := u }).nand_type = u := by
      intro u
      unfold configure set_by_id
      simp only [if_pos hd, if_neg hcell, if_neg hdev, if_neg h7, if_neg h3]
    refine iff_of_false (fun h ↦ ?_) fun h ↦ h3 h.1
    have hslc := h.sets_type .slc
    have hmlc := h.sets_type .mlc4
    rw [hkeep] at hslc hmlc
    rw [← hslc] at hmlc
    cases hmlc

/-- Whenever the probe gets to `nand_scan`, the chip has a complete configuration exactly when the tree
covers it. -/
theorem detect_complete_iff (nand_flash_ids : List NandFlashDev) (chip : IdBytes)
    (type : Option NandFlashDev) (s : Settings) :
    (∀ d t, detect nand_flash_ids chip type s = some (d, t) → Complete chip d s) ↔
      ∀ d, find_type nand_flash_ids chip type = some d → Covered chip d s.layout := by
  have hone : ∀ d, Complete chip d s ↔ Covered chip d s.layout := by
    intro d
    unfold Covered
    by_cases hd : d.pagesize = 0
    · rw [forall_prop_of_true hd]
      by_cases hcell : (chip.cellinfo >>> 2) &&& 0x3 = 0
      · rw [if_pos hcell]
        exact complete_slc hd hcell
      rw [if_neg hcell]
      by_cases hdev : chip.dev_id = 0xd5
      · rw [if_pos hdev]
        exact complete_d5 hd hcell hdev
      · rw [if_neg hdev]
        exact complete_other hd hcell hdev
    · exact iff_of_true (complete_by_table hd) fun h ↦ absurd h hd
  constructor
  · intro h d hd
    apply (hone d).mp
    apply h d (configure chip d s)
    unfold detect
    rw [hd]
    rfl
  · intro h d t hdet
    apply (hone d).mpr
    obtain ⟨d', hd', heq⟩ := Option.map_eq_some_iff.mp hdet
    cases heq
    exact h _ hd'

end Detect

/-- The settings after `memset`, with `nand_type` from the chip probed before. -/
def cleared (nand_type : NandType) : Settings where
  nand_type := nand_type
  cellinfo := 0
  no_subpage_write := false
  size := 0
  bytes := 0
  layout := none
  page_functions := none
  oob_functions := none

/-- An MLC chip with the device ID 0xd5 and another third byte gets no layout; one with 0xdc keeps the
`nand_type` and the size 0; the codes of an SLC chip with pages of 4096 bytes do not fit its layout. -/
theorem uncovered_chips :
    let table : List NandFlashDev := [⟨0xd5, 0⟩, ⟨0xdc, 0⟩, ⟨0xd3, 0⟩]
    (∃ t, detect table ⟨0xec, 0xd5, 0x25, 0x01⟩ none (cleared .slc) = some (⟨0xd5, 0⟩, t) ∧
      t.layout = none ∧ ¬Complete ⟨0xec, 0xd5, 0x25, 0x01⟩ ⟨0xd5, 0⟩ (cleared .slc)) ∧
    (∃ t, detect table ⟨0xec, 0xdc, 0x14, 0x25⟩ none (cleared .slc) = some (⟨0xdc, 0⟩, t) ∧
      t.nand_type = .slc ∧ t.size = 0 ∧ ¬Complete ⟨0xec, 0xdc, 0x14, 0x25⟩ ⟨0xdc, 0⟩ (cleared .slc)) ∧
    ∃ t, detect table ⟨0xec, 0xd3, 0x51, 0x96⟩ none (cleared .slc) = some (⟨0xd3, 0⟩, t) ∧
      page_size ⟨0xec, 0xd3, 0x51, 0x96⟩ = 4096 ∧ t.layout = some s3c_nand_oob_64 ∧
      ¬Complete ⟨0xec, 0xd3, 0x51, 0x96⟩ ⟨0xd3, 0⟩ (cleared .slc) := by
  intro table
  refine ⟨⟨_, rfl, rfl, fun h ↦ ?_⟩, ⟨_, rfl, rfl, rfl, fun h ↦ ?_⟩, ⟨_, rfl, by decide, rfl, fun h ↦ ?_⟩⟩
  · obtain ⟨l, hl, _⟩ := h.layout
    cases hl
  · exact absurd h.size_pos (by decide)
  · exact absurd ((complete_slc rfl (by decide)).mp h) (by decide)

end OK210Drivers.Nand
