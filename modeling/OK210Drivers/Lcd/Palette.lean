import Mathlib.Logic.Function.Basic
import OK210Drivers.Library.BitField

/-!
# The palette of the LCD driver

`webee210_lcdfb_setcolreg` packs three channels into an entry of `pseudo_palette`.  The packing is exact
for every layout of the fields; the index is checked against 16 with `>`, so that 16 is let through.
-/

open Library

namespace OK210Drivers.Lcd

def PALETTE_SIZE : Nat := 16

structure fb_bitfield where
  offset : BitVec 32
  length : BitVec 32
  deriving DecidableEq

structure fb_var_screeninfo where
  red : fb_bitfield
  green : fb_bitfield
  blue : fb_bitfield
  deriving DecidableEq

/-- The words from `pseudo_palette` on; its own are the first `PALETTE_SIZE`. -/
abbrev Words := Nat → BitVec 32

def chan_to_field (chan : BitVec 32) (bf : fb_bitfield) : BitVec 32 :=
  let chan := chan &&& 0xffff
  let chan := chan >>> (16 - bf.length)
  chan <<< bf.offset

-- `transp` is not looked at.
def webee210_lcdfb_setcolreg (regno red green blue _transp : BitVec 32) (var : fb_var_screeninfo)
    (pseudo_palette : Words) : Int × Words :=
  if regno > 16 then (1, pseudo_palette)
  else
    let val := chan_to_field red var.red
    let val := val ||| chan_to_field green var.green
    let val := val ||| chan_to_field blue var.blue
    (0, Function.update pseudo_palette regno.toNat val)

inductive Channel
  | red
  | green
  | blue
  deriving DecidableEq

def fb_var_screeninfo.field (var : fb_var_screeninfo) : Channel → fb_bitfield
  | .red => var.red
  | .green => var.green
  | .blue => var.blue

/-- Three fields of 1 to 16 bits each, on disjoint ranges of a word. -/
structure Layout where
  var : fb_var_screeninfo
  length : ∀ c, 1 ≤ (var.field c).length.toNat ∧ (var.field c).length.toNat ≤ 16
  fits : ∀ c, (var.field c).offset.toNat + (var.field c).length.toNat ≤ 32
  disjoint : ∀ c d, c ≠ d →
    (var.field c).offset.toNat + (var.field c).length.toNat ≤ (var.field d).offset.toNat ∨
      (var.field d).offset.toNat + (var.field d).length.toNat ≤ (var.field c).offset.toNat

def Layout.bits (layout : Layout) (c : Channel) : BitField 32 where
  offset := (layout.var.field c).offset.toNat
  length := (layout.var.field c).length.toNat
  fits := layout.fits c

/-- The high bits of a channel of 16 bits. -/
def top (chan : BitVec 32) (length : Nat) : BitVec length := chan.extractLsb' (16 - length) length

/-- A success writes the entry of `regno`, exactly, and nothing else; a failure writes nothing. -/
def Exact (layout : Layout) (regno : BitVec 32) (chan : Channel → BitVec 32) (transp : BitVec 32)
    (pseudo_palette : Words) : Prop :=
  let r := webee210_lcdfb_setcolreg regno (chan .red) (chan .green) (chan .blue) transp layout.var
    pseudo_palette
  if r.1 = 0 then
    regno.toNat < PALETTE_SIZE ∧
      (∀ c, (layout.bits c).get (r.2 regno.toNat) = top (chan c) (layout.bits c).length) ∧
      (∀ i, (∀ c, ¬(layout.bits c).Has i) → (r.2 regno.toNat).getLsbD i = false) ∧
      ∀ i, i ≠ regno.toNat → r.2 i = pseudo_palette i
  else r.2 = pseudo_palette

variable {layout : Layout} {chan : Channel → BitVec 32}

theorem Layout.disjoint_bits {c d : Channel} (h : c ≠ d) :
    (layout.bits c).Disjoint (layout.bits d) := by
  intro i hc hd
  have hapart := layout.disjoint c d h
  have hlt := hc.2
  have hlt' := hd.2
  have hle := hc.1
  have hle' := hd.1
  simp only [Layout.bits] at hlt hlt' hle hle'
  omega

theorem getLsbD_low_half (v : BitVec 32) (i : Nat) :
    (v &&& 0xffff).getLsbD i = (decide (i < 16) && v.getLsbD i) := by
  have hmask : (0xffff : BitVec 32) = (BitVec.allOnes 16).setWidth 32 := by decide
  rw [hmask, BitVec.getLsbD_and, BitVec.getLsbD_setWidth, BitVec.getLsbD_allOnes, Bool.and_comm]
  by_cases hi : i < 16
  · have h32 : i < 32 := by omega
    simp [hi, h32]
  · simp [hi]

/-- A channel is placed into its field. -/
theorem chan_to_field_eq_place (v : BitVec 32) (c : Channel) :
    chan_to_field v (layout.var.field c) =
      (layout.bits c).place (top v (layout.bits c).length) := by
  have hlen := layout.length c
  have hoffset : (layout.var.field c).offset.toNat = (layout.bits c).offset := rfl
  have hshift : (16 - (layout.var.field c).length).toNat = 16 - (layout.bits c).length := by
    rw [BitVec.toNat_sub_of_le]
    · rfl
    · exact hlen.2
  apply BitVec.eq_of_getLsbD_eq
  intro i hi
  rw [chan_to_field, BitVec.shiftLeft_eq', BitVec.ushiftRight_eq', hshift, hoffset,
    BitVec.getLsbD_shiftLeft, BitVec.getLsbD_ushiftRight, getLsbD_low_half, BitField.getLsbD_place,
    top, BitVec.getLsbD_extractLsb']
  -- the mask ends the field where the shift has put bit 16
  by_cases hhas : (layout.bits c).Has i
  · have hge : ¬i < (layout.bits c).offset := Nat.not_lt.mpr hhas.1
    have hlt := hhas.2
    have h16 : 16 - (layout.bits c).length + (i - (layout.bits c).offset) < 16 := by
      have hle : (layout.bits c).length ≤ 16 := hlen.2
      omega
    have hin : i - (layout.bits c).offset < (layout.bits c).length := by omega
    simp [hhas, hi, hge, h16, hin]
  · rw [decide_eq_false hhas, Bool.false_and]
    by_cases hlt : i < (layout.bits c).offset
    · simp [hlt]
    · have h16 : ¬16 - (layout.bits c).length + (i - (layout.bits c).offset) < 16 := by
        rw [BitField.Has, not_and, Nat.not_lt] at hhas
        have hend := hhas (Nat.le_of_not_lt hlt)
        omega
      simp [h16]

-- What is written to the entry.
def filled (layout : Layout) (chan : Channel → BitVec 32) (c : Channel) : BitField.Filled 32 :=
  ⟨layout.bits c, top (chan c) (layout.bits c).length⟩

def entry (layout : Layout) (chan : Channel → BitVec 32) : BitVec 32 :=
  BitField.pack [filled layout chan .red, filled layout chan .green, filled layout chan .blue]

theorem mem_filled (c : Channel) : filled layout chan c ∈
    [filled layout chan .red, filled layout chan .green, filled layout chan .blue] := by
  cases c with
  | red => exact List.mem_cons_self
  | green => exact List.mem_cons_of_mem _ List.mem_cons_self
  | blue => exact List.mem_cons_of_mem _ (List.mem_cons_of_mem _ List.mem_cons_self)

theorem get_entry (c : Channel) :
    (layout.bits c).get (entry layout chan) = top (chan c) (layout.bits c).length := by
  refine BitField.get_pack ?_ (mem_filled c)
  have hdisjoint : ∀ c d, c ≠ d →
      (filled layout chan c).field.Disjoint (filled layout chan d).field :=
    fun _ _ h ↦ Layout.disjoint_bits h
  simp only [List.pairwise_cons, List.mem_cons, List.not_mem_nil, or_false, forall_eq_or_imp,
    forall_eq, false_imp_iff, implies_true, List.Pairwise.nil, and_true]
  exact ⟨⟨hdisjoint _ _ (by decide), hdisjoint _ _ (by decide)⟩, hdisjoint _ _ (by decide)⟩

theorem getLsbD_entry {i : Nat} (h : ∀ c, ¬(layout.bits c).Has i) :
    (entry layout chan).getLsbD i = false := by
  apply BitField.getLsbD_pack
  intro p hp
  simp only [List.mem_cons, List.not_mem_nil, or_false] at hp
  rcases hp with rfl | rfl | rfl
  · exact h .red
  · exact h .green
  · exact h .blue

theorem setcolreg_eq_entry {regno : BitVec 32} (h : ¬regno > 16) (transp : BitVec 32)
    (pseudo_palette : Words) :
    webee210_lcdfb_setcolreg regno (chan .red) (chan .green) (chan .blue) transp layout.var
      pseudo_palette = (0, Function.update pseudo_palette regno.toNat (entry layout chan)) := by
  have hplace : ∀ c, chan_to_field (chan c) (layout.var.field c) =
      (filled layout chan c).field.place (filled layout chan c).value :=
    fun c ↦ chan_to_field_eq_place (chan c) c
  have hred := hplace .red
  have hgreen := hplace .green
  have hblue := hplace .blue
  simp only [fb_var_screeninfo.field] at hred hgreen hblue
  rw [webee210_lcdfb_setcolreg, if_neg h]
  simp only
  rw [hred, hgreen, hblue, entry, BitField.pack, BitField.pack, BitField.pack, BitField.pack,
    BitVec.or_assoc]
  congr 4
  exact BitVec.or_zero.symm

/-- A colour is stored as it should be, or refused, for every index but 16. -/
theorem setcolreg_exact_iff (layout : Layout) (regno : BitVec 32) (chan : Channel → BitVec 32)
    (transp : BitVec 32) (pseudo_palette : Words) :
    Exact layout regno chan transp pseudo_palette ↔ regno ≠ 16 := by
  unfold Exact
  by_cases hbig : regno > 16
  · have hrefused : webee210_lcdfb_setcolreg regno (chan .red) (chan .green) (chan .blue) transp
        layout.var pseudo_palette = (1, pseudo_palette) := by
      rw [webee210_lcdfb_setcolreg, if_pos hbig]
    rw [hrefused]
    refine iff_of_true rfl ?_
    rintro rfl
    exact absurd hbig (by decide)
  · rw [setcolreg_eq_entry hbig]
    have hle : regno.toNat ≤ 16 := Nat.le_of_not_lt hbig
    simp only [if_true, Function.update_self]
    constructor
    · rintro ⟨hlt, _⟩ rfl
      exact absurd hlt (by decide)
    · intro hne
      have hlt : regno.toNat ≠ 16 := fun h ↦ hne (BitVec.eq_of_toNat_eq h)
      refine ⟨?_, get_entry, fun i ↦ getLsbD_entry, fun i hi ↦ Function.update_of_ne hi _ _⟩
      show regno.toNat < 16
      omega

/-- The layout that the driver sets up. -/
def rgb888 : Layout where
  var := ⟨⟨16, 8⟩, ⟨8, 8⟩, ⟨0, 8⟩⟩
  length := by
    intro c
    cases c <;> decide
  fits := by
    intro c
    cases c <;> decide
  disjoint := by
    intro c d h
    cases c <;> cases d <;> first | exact absurd rfl h | decide

/-- White for index 16 goes behind the palette. -/
theorem seventeenth_colour_written :
    ¬Exact rgb888 16 (fun _ ↦ 0xffff) 0 (fun _ ↦ 0) ∧
      let r := webee210_lcdfb_setcolreg 16 0xffff 0xffff 0xffff 0 rgb888.var fun _ ↦ 0
      r.1 = 0 ∧ r.2 PALETTE_SIZE = 0xffffff := by
  refine ⟨fun h ↦ ?_, rfl, by decide⟩
  have hlt : 16 < PALETTE_SIZE := h.1
  exact absurd hlt (by decide)

end OK210Drivers.Lcd
