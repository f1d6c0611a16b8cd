import Mathlib.Algebra.Group.Nat.Defs
import OK210Drivers.Nand.Oob

/-!
# Wrong bits in a page

A page of the 1-bit format has two layers of codes: those of its steps, which stand in the OOB area, and
the code of the OOB area itself.  `s3c_nand_read_page_1bit` repairs the OOB area first, so that what it
compares the data with is right again.  One bit may be wrong in each step and one in the OOB area.
-/

open Library

namespace OK210Drivers.Nand

/-- One bit of a list of bytes flipped. -/
def flipBit (bytes : List Byte) (i b : Nat) : List Byte := bytes.modify i (· ^^^ (1 : Byte) <<< b)

/-- The code for SLC locates a wrong bit in up to 2048 bytes, and a wrong bit of the code is not taken for
one of the bytes. -/
structure EccEngine.Locates (eng : EccEngine) : Prop where
  data : ∀ (bytes : List Byte) (i b : Nat), bytes.length ≤ 2048 → i < bytes.length → b < 8 →
    let r := eng.status .slc (flipBit bytes i b) (eng.code .slc bytes)
    err_type .slc r = 1 ∧ ((r.nfmeccerr0 >>> 7) &&& 0x7ff).toNat = i ∧
      ((r.nfmeccerr0 >>> 4) &&& 0x7).toNat = b
  code : ∀ (bytes : List Byte) (i b : Nat), bytes.length ≤ 2048 → i < 4 → b < 8 →
    err_type .slc (eng.status .slc bytes (flipBit (eng.code .slc bytes) i b)) ≠ 1

/-! ## Flipped bits in memory -/

theorem flip_of_ne {m : Mem Byte} {a x : Nat} {bits : Byte} (h : x ≠ a) : flip m a bits x = m x :=
  Function.update_of_ne h _ _

theorem flip_congr {m m' : Mem Byte} {a x : Nat} {bits : Byte} (hx : m x = m' x) (ha : m a = m' a) :
    flip m a bits x = flip m' a bits x := by
  by_cases h : x = a
  · rw [flip, flip, h, Function.update_self, Function.update_self, ha]
  · rw [flip_of_ne h, flip_of_ne h, hx]

-- The `n` bytes at `c` are as before, or bit `b` of byte `i` of them has flipped.
def Kept (m m' : Mem Byte) (c n : Nat) : Prop := ∀ x < n, m' (c + x) = m (c + x)

def Flipped (m m' : Mem Byte) (c n i b : Nat) : Prop :=
  ∀ x < n, m' (c + x) = flip m (c + i) ((1 : Byte) <<< b) (c + x)

/-- In the `n` bytes at `c`, one bit at most has flipped. -/
def OneFlip (m m' : Mem Byte) (c n : Nat) : Prop :=
  Kept m m' c n ∨ ∃ i < n, ∃ b < 8, Flipped m m' c n i b

section Flips

variable {m m' : Mem Byte} {c n o j i b : Nat}

theorem Kept.load (h : Kept m m' c n) (hin : o + j ≤ n) : m'.load (c + o) j = m.load (c + o) j := by
  apply Mem.load_congr
  intro x hx
  rw [Nat.add_assoc]
  exact h (o + x) (by omega)

theorem Flipped.load_outside (h : Flipped m m' c n i b) (hin : o + j ≤ n) (hout : i < o ∨ o + j ≤ i) :
    m'.load (c + o) j = m.load (c + o) j := by
  apply Mem.load_congr
  intro x hx
  rw [Nat.add_assoc, h (o + x) (by omega)]
  exact flip_of_ne (by omega)

theorem Flipped.load_inside (h : Flipped m m' c n i b) (hin : o + j ≤ n) (hlo : o ≤ i) (hhi : i < o + j) :
    m'.load (c + o) j = flipBit (m.load (c + o) j) (i - o) b := by
  apply List.ext_getElem
  · simp only [flipBit, Mem.load_length, List.length_modify]
  · intro x hx hx'
    rw [Mem.load_length] at hx
    simp only [flipBit, Mem.load_getElem, List.getElem_modify]
    rw [Nat.add_assoc, h (o + x) (by omega)]
    by_cases hix : i - o = x
    · obtain rfl : i = o + x := by omega
      rw [if_pos hix, flip, Function.update_self]
    · rw [if_neg hix]
      exact flip_of_ne (by omega)

/-- What a flipped bit makes of a part of the bytes. -/
theorem OneFlip.load (h : OneFlip m m' c n) (hin : o + j ≤ n) :
    m'.load (c + o) j = m.load (c + o) j ∨
      ∃ i < j, ∃ b < 8, m'.load (c + o) j = flipBit (m.load (c + o) j) i b := by
  rcases h with h | ⟨i, hi, b, hb, h⟩
  · exact Or.inl (h.load hin)
  · by_cases hpart : o ≤ i ∧ i < o + j
    · exact Or.inr ⟨i - o, by omega, b, hb, h.load_inside hin hpart.1 hpart.2⟩
    · exact Or.inl (h.load_outside hin (by omega))

end Flips

theorem flip_changes {x : Byte} {b : Nat} (hb : b < 8) : x ≠ x ^^^ (1 : Byte) <<< b := by
  have hne : ∀ b < 8, (1 : Byte) <<< b ≠ 0 := by decide
  intro h
  apply hne b hb
  calc (1 : Byte) <<< b = x ^^^ (x ^^^ (1 : Byte) <<< b) := by
        rw [← BitVec.xor_assoc, BitVec.xor_self, BitVec.zero_xor]
    _ = 0 := by
        rw [← h, BitVec.xor_self]
        rfl

theorem flip_store_flipBit (m : Mem Byte) (p i b : Nat) (bytes : List Byte) (hi : i < bytes.length) :
    flip (m.store p (flipBit bytes i b)) (p + i) ((1 : Byte) <<< b) = m.store p bytes := by
  have hlen : (flipBit bytes i b).length = bytes.length := List.length_modify ..
  funext x
  by_cases hx : x = p + i
  · subst hx
    rw [flip, Function.update_self, Mem.store_inside _ _ _ _ (by omega), Mem.store_inside _ _ _ _ hi]
    simp only [flipBit, List.getElem_modify_eq, BitVec.xor_assoc, BitVec.xor_self, BitVec.xor_zero]
  · rw [flip_of_ne hx]
    by_cases hin : p ≤ x ∧ x < p + bytes.length
    · obtain ⟨j, rfl⟩ := Nat.exists_eq_add_of_le hin.1
      rw [Mem.store_inside _ _ _ _ (by omega), Mem.store_inside _ _ _ _ (by omega)]
      simp [flipBit, show i ≠ j by omega]
    · rw [Mem.store_outside _ _ _ _ (by omega), Mem.store_outside _ _ _ _ (by omega)]

/-! ## What a correction does -/

section Corrections

variable (eng : EccEngine)

/-- The correction turns `piece`, read together with `code`, into `good`. -/
def Restores (piece code good : List Byte) : Prop :=
  ∀ (dat : Mem Byte) (p : Nat),
    (correct .slc (eng.status .slc piece code) (dat.store p piece) p).2 = dat.store p good

/-- The correction does not give up on `piece`. -/
def Succeeds (piece code : List Byte) : Prop :=
  ∀ (dat : Mem Byte) (p : Nat), (correct .slc (eng.status .slc piece code) dat p).1 ≠ -1

variable {eng}

theorem restores_same (good : List Byte) : Restores eng good (eng.code .slc good) good := by
  intro dat p
  rw [correct_of_no_error (by decide) (status_no_error eng .slc good)]

theorem succeeds_same (good : List Byte) : Succeeds eng good (eng.code .slc good) := by
  intro dat p
  rw [correct_of_no_error (by decide) (status_no_error eng .slc good)]
  exact (by decide : (0 : Int) ≠ -1)

theorem correct_slc_one {r : ErrorRegs} {i b : Nat} (h : err_type .slc r = 1)
    (hi : ((r.nfmeccerr0 >>> 7) &&& 0x7ff).toNat = i) (hb : ((r.nfmeccerr0 >>> 4) &&& 0x7).toNat = b)
    (dat : Mem Byte) (p : Nat) :
    correct .slc r dat p = ((1 : Int), flip dat (p + i) ((1 : Byte) <<< b)) := by
  simp only [correct, h, hi, hb]
  rfl

theorem correct_slc_keeps {r : ErrorRegs} (h : err_type .slc r ≠ 1) (dat : Mem Byte) (p : Nat) :
    (correct .slc r dat p).2 = dat := by
  have hne : (err_type .slc r).toNat ≠ 1 := fun h1 ↦ h (BitVec.eq_of_toNat_eq h1)
  simp only [correct]
  split
  · rfl
  · next h1 => exact absurd h1 hne
  · rfl

variable {good : List Byte} {i b : Nat}

theorem restores_data (hloc : eng.Locates) (hlen : good.length ≤ 2048) (hi : i < good.length) (hb : b < 8) :
    Restores eng (flipBit good i b) (eng.code .slc good) good := by
  intro dat p
  obtain ⟨h1, hpos, hbit⟩ := hloc.data good i b hlen hi hb
  rw [correct_slc_one h1 hpos hbit]
  exact flip_store_flipBit dat p i b good hi

theorem succeeds_data (hloc : eng.Locates) (hlen : good.length ≤ 2048) (hi : i < good.length) (hb : b < 8) :
    Succeeds eng (flipBit good i b) (eng.code .slc good) := by
  intro dat p
  obtain ⟨h1, hpos, hbit⟩ := hloc.data good i b hlen hi hb
  rw [correct_slc_one h1 hpos hbit]
  exact (by decide : (1 : Int) ≠ -1)

theorem restores_code (hloc : eng.Locates) (hlen : good.length ≤ 2048) (hi : i < 4) (hb : b < 8) :
    Restores eng good (flipBit (eng.code .slc good) i b) good :=
  fun _ _ ↦ correct_slc_keeps (hloc.code good i b hlen hi hb) _ _

end Corrections

/-! ## The steps of the reader -/

section Steps

variable (eng : EccEngine)

theorem correct_data_slc (s : State) (hslc : s.nand_type = .slc) (dat oob : Mem Byte) (p q : Nat) :
    let r := correct .slc (eng.status .slc s.ecc.stream (oob.load q 4)) dat p
    ∃ ecc tr, s3c_nand_correct_data eng s dat (some p) (fun j ↦ oob (q + j)) =
      (r.1, r.2, { s with ecc := ecc, trace := s.trace ++ tr }) := by
  intro r
  have hh := eccdata_code_write s hslc fun j ↦ oob (q + j)
  rw [← load_four] at hh
  have ht : (write_eccdata s fun j ↦ oob (q + j)).nand_type = .slc := by
    simp only [write_eccdata, hslc, if_true]
  have hstream : (write_eccdata s fun j ↦ oob (q + j)).ecc.stream = s.ecc.stream := by
    simp only [write_eccdata, hslc, if_true]
  refine ⟨(write_eccdata s fun j ↦ oob (q + j)).ecc, [.supplied (oob.load q 4)], ?_⟩
  simp only [s3c_nand_correct_data, hh, ht, hstream, r]
  simp only [write_eccdata, hslc, if_true]

theorem decode_step_1bit_restores (size ecc i p col : Nat) (s : State) (hslc : s.nand_type = .slc)
    {good : List Byte} (h : Restores eng (s.cells.load col size) (s.oob_poi.load ecc 4) good) :
    ∃ c pr e sums failed tr, decode_step_1bit eng size ecc i p col s = { s with
        col := c
        programming := pr
        ecc := e
        buf := s.buf.store p good
        ecccalc := sums
        failed := failed
        trace := tr } ∧
      (Succeeds eng (s.cells.load col size) (s.oob_poi.load ecc 4) → failed = s.failed) := by
  let piece := s.cells.load col size
  let s' : State := { s with
    col := col + size
    programming := false
    ecc := { s.ecc with mode := .read, stream := piece, supplied := [], locked := true }
    buf := s.buf.store p piece
    ecccalc := s.ecccalc.store i (eng.code .slc piece)
    trace := s.trace ++ [.computed (eng.code .slc piece)] }
  rcases correct_data_slc eng s' hslc (s.buf.store p piece) s.oob_poi p ecc with ⟨e, tr, he⟩
  have hbody : decode_step_1bit eng size ecc i p col s =
      (let r := s3c_nand_correct_data eng s' s'.buf (some p) fun j ↦ s'.oob_poi (ecc + j)
       count_failure { r.2.2 with buf := r.2.1 } r.1) := by
    simp [decode_step_1bit, cmdfunc, s3c_nand_enable_hwecc, read_buf, s3c_nand_calculate_ecc, hslc, s',
      piece]
  let r := correct .slc (eng.status .slc piece (s.oob_poi.load ecc 4)) (s.buf.store p piece) p
  have hr : r.2 = s.buf.store p good := h s.buf p
  refine ⟨col + size, false, e, s.ecccalc.store i (eng.code .slc piece),
    if r.1 = -1 then s.failed + 1 else s.failed, s'.trace ++ tr, ?_, ?_⟩
  · rw [hbody, he]
    change count_failure { s' with ecc := e, trace := s'.trace ++ tr, buf := r.2 } r.1 = _
    rw [hr, count_failure]
    split
    next hfail => simp [s']
    next hfail => simp [s']
  · exact fun hs ↦ if_neg (hs (s.buf.store p piece) p)

/-- When every step is restored to what `good` has there, so is the page. -/
theorem decode_steps_1bit_restores (mtd : Mtd) (hbytes : mtd.ecc.bytes = 4) (good : Mem Byte)
    (eccsteps i p : Nat) (s : State) (hslc : s.nand_type = .slc) (hn : eccsteps ≤ mtd.ecc.steps)
    (h : ∀ j < mtd.ecc.steps, Restores eng (s.cells.load (mtd.ecc.size * j) mtd.ecc.size)
      (s.oob_poi.load (mtd.ecc.layout.pos 0 + j * 4) 4) (good.load (mtd.ecc.size * j) mtd.ecc.size)) :
    ∃ c pr e sums failed tr,
      decode_steps_1bit eng mtd eccsteps i p (mtd.ecc.size * (mtd.ecc.steps - eccsteps)) s = { s with
        col := c
        programming := pr
        ecc := e
        buf := s.buf.store p (good.load (mtd.ecc.size * (mtd.ecc.steps - eccsteps))
          (eccsteps * mtd.ecc.size))
        ecccalc := sums
        failed := failed
        trace := tr } ∧
      ((∀ j < mtd.ecc.steps, Succeeds eng (s.cells.load (mtd.ecc.size * j) mtd.ecc.size)
        (s.oob_poi.load (mtd.ecc.layout.pos 0 + j * 4) 4)) → failed = s.failed) := by
  induction eccsteps generalizing i p s with
  | zero =>
    refine ⟨s.col, s.programming, s.ecc, s.ecccalc, s.failed, s.trace, ?_, fun _ ↦ rfl⟩
    simp [decode_steps_1bit]
  | succ n ih =>
    have hlt : mtd.ecc.steps - (n + 1) < mtd.ecc.steps := by omega
    have hnext : mtd.ecc.steps - n = mtd.ecc.steps - (n + 1) + 1 := by omega
    have hfirst := h (mtd.ecc.steps - (n + 1)) hlt
    rcases decode_step_1bit_restores eng mtd.ecc.size _ i p _ s hslc hfirst with
      ⟨c, pr, e, calc', failed, tr, hstep, hfailed⟩
    rw [decode_steps_1bit, show mtd.ecc.steps + 1 - (n + 1) = mtd.ecc.steps - n by omega]
    simp only [hbytes]
    have hc : mtd.ecc.size * (mtd.ecc.steps - n) =
        mtd.ecc.size * (mtd.ecc.steps - (n + 1)) + mtd.ecc.size := by
      rw [hnext, Nat.mul_succ]
    generalize decode_step_1bit eng mtd.ecc.size _ i p _ s = s' at hstep ⊢
    rcases ih (i + 4) (p + mtd.ecc.size) s' (by rw [hstep]; exact hslc) (by omega)
        (by rw [hstep]; exact h) with ⟨c', pr', e', calc'', failed', tr', heq, hfailed'⟩
    rw [heq, hstep]
    rw [hstep] at hfailed'
    refine ⟨c', pr', e', calc'', failed', tr', ?_, fun hs ↦ ?_⟩
    · have hbuf : (s.buf.store p (good.load (mtd.ecc.size * (mtd.ecc.steps - (n + 1))) mtd.ecc.size)).store
            (p + mtd.ecc.size) (good.load (mtd.ecc.size * (mtd.ecc.steps - n)) (n * mtd.ecc.size)) =
          s.buf.store p (good.load (mtd.ecc.size * (mtd.ecc.steps - (n + 1))) ((n + 1) * mtd.ecc.size)) := by
        rw [hc, Mem.store_load_adjacent, Nat.succ_mul, Nat.add_comm mtd.ecc.size (n * mtd.ecc.size)]
      simp only [hbuf]
    · rw [hfailed' hs, hfailed (hs _ hlt)]

end Steps

/-! ## The page with a wrong bit -/

section Page

variable {eng : EccEngine} {l : Layout} {k oobsize : Nat} {buf oob good : Mem Byte}

-- Where the reader looks for the code of a step.
theorem code_at {oob cells : Mem Byte} {size n q c : Nat}
    (h : oob.load q (n * 4) = codes eng .slc (chunks cells size n c)) {j : Nat} (hj : j < n) :
    oob.load (q + j * 4) 4 = eng.code .slc (cells.load (c + size * j) size) := by
  induction n generalizing q c j with
  | zero => omega
  | succ n ih =>
    rcases gather_step eng .bit1 h with ⟨hfirst, hrest⟩
    cases j with
    | zero =>
      rw [Nat.zero_mul, Nat.mul_zero, Nat.add_zero, Nat.add_zero]
      exact hfirst
    | succ j =>
      have hj' := ih hrest (Nat.lt_of_succ_lt_succ hj)
      have hq : q + (j + 1) * 4 = q + Format.bit1.bytes + j * 4 := by
        show _ = q + 4 + j * 4
        omega
      have hc : c + size * (j + 1) = c + size + size * j := by
        rw [Nat.mul_succ]
        omega
      rw [hq, hc]
      exact hj'

/-- What the correction makes of the OOB area: with a wrong bit in its code it is left as it is. -/
theorem spare_corrected (hloc : eng.Locates) (h4 : 4 ≤ oobsize) (hsize : oobsize ≤ 2048)
    (hspare : good.load (512 * k + (oobsize - 4)) 4 = eng.code .slc (good.load (512 * k) (oobsize - 4)))
    {cells : Mem Byte} (hflip : OneFlip good cells (512 * k) oobsize) (dst : Mem Byte) :
    ∃ found, (correct .slc (eng.status .slc (cells.load (512 * k) (oobsize - 4))
          (cells.load (512 * k + (oobsize - 4)) 4)) (dst.store 0 (cells.load (512 * k) oobsize)) 0).2 =
        dst.store 0 (Mem.load found (512 * k) oobsize) ∧
      (found = good ∨ found = cells ∧ ¬Kept good cells (512 * k) oobsize ∧
        Kept good cells (512 * k) (oobsize - 4)) := by
  have hlen : (good.load (512 * k) (oobsize - 4)).length = oobsize - 4 := Mem.load_length ..
  have hall : (good.load (512 * k) oobsize).length = oobsize := Mem.load_length ..
  rcases hflip with hkept | ⟨i, hi, b, hb, hflip⟩
  · have hwhole := hkept.load (o := 0) (j := oobsize) (by omega)
    have hfront := hkept.load (o := 0) (j := oobsize - 4) (by omega)
    have hcode := hkept.load (o := oobsize - 4) (j := 4) (by omega)
    rw [Nat.add_zero] at hwhole hfront
    refine ⟨good, ?_, Or.inl rfl⟩
    rw [hwhole, hfront, hcode, hspare, correct_of_no_error (by decide) (status_no_error eng .slc _)]
  by_cases hbefore : i < oobsize - 4
  · have hwhole := hflip.load_inside (o := 0) (j := oobsize) (by omega) (by omega) (by omega)
    have hfront := hflip.load_inside (o := 0) (j := oobsize - 4) (by omega) (by omega) (by omega)
    have hcode := hflip.load_outside (o := oobsize - 4) (j := 4) (by omega) (by omega)
    rw [Nat.add_zero, Nat.sub_zero] at hwhole hfront
    refine ⟨good, ?_, Or.inl rfl⟩
    obtain ⟨h1, hpos, hbit⟩ := hloc.data (good.load (512 * k) (oobsize - 4)) i b (by omega) (by omega) hb
    rw [hwhole, hfront, hcode, hspare, correct_slc_one h1 hpos hbit]
    exact flip_store_flipBit _ _ _ _ _ (by omega)
  · have hfront := hflip.load_outside (o := 0) (j := oobsize - 4) (by omega) (by omega)
    have hcode := hflip.load_inside (o := oobsize - 4) (j := 4) (by omega) (by omega) (by omega)
    rw [Nat.add_zero] at hfront
    refine ⟨cells, ?_, Or.inr ⟨rfl, ?_, ?_⟩⟩
    · have hkeep := hloc.code (good.load (512 * k) (oobsize - 4)) (i - (oobsize - 4)) b (by omega)
        (by omega) hb
      rw [hfront, hcode, hspare, correct_slc_keeps hkeep]
    · intro hkept
      have hat := (hkept i hi).symm.trans (hflip i hi)
      rw [flip, Function.update_self] at hat
      exact flip_changes hb hat
    · intro x hx
      rw [hflip x (by omega)]
      exact flip_of_ne (by omega)

/-- What the OOB area is once the reader is done with it: as it was written, or, with a wrong bit in it, as
it is in the chip; without the mark of jffs2 the latter only when the bit is in the code of the OOB area. -/
theorem spare_repaired (hloc : eng.Locates) (h4 : 4 ≤ oobsize) (hsize : oobsize ≤ 2048)
    (hw : Written eng .bit1 l k oobsize buf oob good) (r : State) (hslc : r.nand_type = .slc)
    (hflip : OneFlip good r.cells (512 * k) oobsize) :
    ∃ col pr e sums tr found,
      check_spare_1bit eng (oobsize - 4) (fetch_spare_1bit eng (Format.bit1.mtd l k oobsize) r) = { r with
        col := col
        programming := pr
        ecc := e
        oob_poi := r.oob_poi.store 0 (Mem.load found (512 * k) oobsize)
        ecccalc := sums
        trace := tr } ∧
      (found = good ∨ found = r.cells ∧ ¬Kept good r.cells (512 * k) oobsize ∧
        (¬Marked (fun x ↦ r.cells (512 * k + x)) → Kept good r.cells (512 * k) (oobsize - 4))) := by
  have hspare : good.load (512 * k + (oobsize - 4)) 4 = eng.code .slc (good.load (512 * k) (oobsize - 4)) :=
    hw.spare rfl
  by_cases hmark : Marked fun x ↦ r.cells (512 * k + x)
  · -- The code of the OOB area is not looked at.
    rcases spare_sound_eq eng (l := l) h4 r hslc (Or.inr hmark) with ⟨col, pr, e, sums, tr, heq⟩
    by_cases hkept : Kept good r.cells (512 * k) oobsize
    · refine ⟨col, pr, e, sums, r.trace ++ tr, good, ?_, Or.inl rfl⟩
      have hwhole := hkept.load (o := 0) (j := oobsize) (by omega)
      rw [Nat.add_zero] at hwhole
      rw [heq, hwhole]
    · exact ⟨col, pr, e, sums, r.trace ++ tr, r.cells, heq, Or.inr ⟨rfl, hkept, fun h ↦ absurd hmark h⟩⟩
  · rcases fetch_spare_1bit_eq eng (l := l) (k := k) h4 r hslc with ⟨col, pr, e, sums, tr, hfetch, hstream, -⟩
    generalize fetch_spare_1bit eng (Format.bit1.mtd l k oobsize) r = s at hfetch
    have hoob : s.oob_poi = r.oob_poi.store 0 (r.cells.load (512 * k) oobsize) := by rw [hfetch]
    have hnot : ¬Marked s.oob_poi := by
      have hat : ∀ x < oobsize, s.oob_poi x = r.cells (512 * k + x) := by
        intro x hx
        have hin := Mem.store_load_inside r.oob_poi r.cells 0 (512 * k) oobsize x hx
        rw [Nat.zero_add] at hin
        rw [hoob, hin]
      have h2 := hat 2 (by omega)
      have h3 := hat 3 (by omega)
      rintro ⟨hm2, hm3⟩
      exact hmark ⟨h2.symm.trans hm2, h3.symm.trans hm3⟩
    have hcode : s.oob_poi.load (oobsize - 4) 4 = r.cells.load (512 * k + (oobsize - 4)) 4 := by
      have hwindow := Mem.load_store_load r.oob_poi r.cells 0 (512 * k) oobsize (oobsize - 4) 4 (by omega)
      rw [Nat.zero_add] at hwindow
      rw [hoob, hwindow]
    rcases correct_data_slc eng s (by rw [hfetch]; exact hslc) s.oob_poi s.oob_poi 0 (oobsize - 4) with
      ⟨e', tr', hcorrect⟩
    have hs : s.ecc.stream = r.cells.load (512 * k) (oobsize - 4) := by rw [hfetch, hstream]
    simp only [hs, hcode] at hcorrect
    have hcheck : check_spare_1bit eng (oobsize - 4) s = { s with
        oob_poi := (correct .slc (eng.status .slc (r.cells.load (512 * k) (oobsize - 4))
          (r.cells.load (512 * k + (oobsize - 4)) 4)) s.oob_poi 0).2
        ecc := e'
        trace := s.trace ++ tr' } := by
      unfold Marked at hnot
      rw [check_spare_1bit, if_pos hnot, hcorrect]
    rcases spare_corrected hloc h4 hsize hspare hflip r.oob_poi with ⟨found, hfound, hcase⟩
    rw [← hoob] at hfound
    refine ⟨col, pr, e', sums, s.trace ++ tr', found, ?_, ?_⟩
    · rw [hcheck, hfound, hfetch]
    · exact hcase.imp_right fun h ↦ ⟨h.1, h.2.1, fun _ ↦ h.2.2⟩

/-- What one step finds: its bytes with one wrong bit, or its code, but not both. -/
theorem step_restores (hloc : eng.Locates) {cells : Mem Byte} {j : Nat} {code : List Byte}
    (hdata : OneFlip good cells (512 * j) 512)
    (hcode : code = eng.code .slc (good.load (512 * j) 512) ∨ Kept good cells (512 * j) 512 ∧
      ∃ i < 4, ∃ b < 8, code = flipBit (eng.code .slc (good.load (512 * j) 512)) i b) :
    Restores eng (cells.load (512 * j) 512) code (good.load (512 * j) 512) ∧
      (code = eng.code .slc (good.load (512 * j) 512) → Succeeds eng (cells.load (512 * j) 512) code) := by
  have hlen : (good.load (512 * j) 512).length = 512 := Mem.load_length ..
  have hright : code = eng.code .slc (good.load (512 * j) 512) →
      Restores eng (cells.load (512 * j) 512) code (good.load (512 * j) 512) ∧
        Succeeds eng (cells.load (512 * j) 512) code := by
    rintro rfl
    rcases hdata.load (o := 0) (j := 512) (by omega) with hsame | ⟨i, hi, b, hb, hflip⟩
    · rw [Nat.add_zero] at hsame
      rw [hsame]
      exact ⟨restores_same _, succeeds_same _⟩
    · rw [Nat.add_zero] at hflip
      rw [hflip]
      exact ⟨restores_data hloc (by omega) (by omega) hb, succeeds_data hloc (by omega) (by omega) hb⟩
  refine ⟨?_, fun h ↦ (hright h).2⟩
  rcases hcode with h | ⟨hkept, i, hi, b, hb, rfl⟩
  · exact (hright h).1
  · have hsame := hkept.load (o := 0) (j := 512) (by omega)
    rw [Nat.add_zero] at hsame
    rw [hsame]
    exact restores_code hloc (by omega) hi hb

/-- What the loop finds for each of its steps. -/
theorem step_found (hloc : eng.Locates) (hroom : l.pos 0 + k * 4 ≤ oobsize - 4)
    (hw : Written eng .bit1 l k oobsize buf oob good) {cells found : Mem Byte}
    (hdata : ∀ j < k, OneFlip good cells (512 * j) 512) (hoob : OneFlip good cells (512 * k) oobsize)
    (hfound : found = good ∨ found = cells ∧ ∀ j < k, Kept good cells (512 * j) 512 ∨
      cells.load (512 * k + (l.pos 0 + j * 4)) 4 = good.load (512 * k + (l.pos 0 + j * 4)) 4)
    (dst : Mem Byte) {j : Nat} (hj : j < k) :
    Restores eng (cells.load (512 * j) 512)
        ((dst.store 0 (found.load (512 * k) oobsize)).load (l.pos 0 + j * 4) 4) (good.load (512 * j) 512) ∧
      (found = good ∨ Kept good cells (512 * k) (oobsize - 4) → Succeeds eng (cells.load (512 * j) 512)
        ((dst.store 0 (found.load (512 * k) oobsize)).load (l.pos 0 + j * 4) 4)) := by
  have hwindow := Mem.load_store_load dst found 0 (512 * k) oobsize (l.pos 0 + j * 4) 4 (by omega)
  rw [Nat.zero_add] at hwindow
  have hmain : good.load (512 * k + l.pos 0) (k * 4) = codes eng .slc (chunks good 512 k 0) := by
    rw [hw.chunks_eq]
    exact hw.main
  have hright := code_at hmain hj
  rw [Nat.zero_add, Nat.add_assoc] at hright
  rw [hwindow]
  have hcode : found.load (512 * k + (l.pos 0 + j * 4)) 4 = eng.code .slc (good.load (512 * j) 512) ∨
      Kept good cells (512 * j) 512 ∧ ∃ i < 4, ∃ b < 8, found.load (512 * k + (l.pos 0 + j * 4)) 4 =
        flipBit (eng.code .slc (good.load (512 * j) 512)) i b := by
    rw [← hright]
    rcases hfound with rfl | ⟨rfl, hone⟩
    · exact Or.inl rfl
    · rcases hone j hj with hkept | hsame
      · exact (hoob.load (by omega)).imp_right fun h ↦ ⟨hkept, h⟩
      · exact Or.inl hsame
  have hstep := step_restores hloc (hdata j hj) hcode
  refine ⟨hstep.1, fun h ↦ hstep.2 ?_⟩
  rw [← hright]
  rcases h with rfl | hkept
  · rfl
  · rcases hfound with rfl | ⟨rfl, _⟩
    · rfl
    · exact hkept.load (by omega)

end Page

/-- A page of the 1-bit format survives a wrong bit in each of its steps and one in the OOB area, be it in
the codes of the steps, in the other bytes or in the code of the OOB area: `read_page` returns the data
that `write_page` was given.  Under the mark of jffs2 the OOB area is not repaired, and a step may not have
wrong bits both in its data and in its code.  Without the mark, or when the OOB area is as it was, no failure
is counted and the OOB bytes outside of the codes are returned, too. -/
theorem read_page_single_bits (eng : EccEngine) (hloc : eng.Locates) {l : Layout} (hl : l ∈ layouts_1bit)
    {k oobsize : Nat} (hfit : k * 4 ≤ l.eccbytes) (hroom : l.pos 0 + k * 4 ≤ oobsize - 4) (h4 : 4 ≤ oobsize)
    (hsize : oobsize ≤ 2048) (s r : State) (hs : s.nand_type = .slc) (hr : r.nand_type = .slc)
    {good : Mem Byte} (hgood : (s3c_nand_write_page_1bit eng (Format.bit1.mtd l k oobsize)
      (cmdfunc s .seqin 0)).cells = good)
    (hdata : ∀ j < k, OneFlip good r.cells (512 * j) 512) (hoob : OneFlip good r.cells (512 * k) oobsize)
    (hone : Marked (fun x ↦ r.cells (512 * k + x)) → ∀ j < k, Kept good r.cells (512 * j) 512 ∨
      r.cells.load (512 * k + (l.pos 0 + j * 4)) 4 = good.load (512 * k + (l.pos 0 + j * 4)) 4) :
    let t := s3c_nand_read_page_1bit eng (Format.bit1.mtd l k oobsize) (cmdfunc r .read0 0)
    t.buf.load 0 (512 * k) = s.buf.load 0 (512 * k) ∧
      (¬Marked (fun x ↦ r.cells (512 * k + x)) ∨ Kept good r.cells (512 * k) oobsize →
        t.failed = r.failed ∧
        ∀ x < oobsize - 4, (x < l.pos 0 ∨ l.pos 0 + k * 4 ≤ x) → t.oob_poi x = s.oob_poi x) := by
  intro t
  have hc := contiguous_of_mem (@mem_layouts .bit1 _ hl)
  have hw := (write_page_written eng .bit1 hc hfit hroom h4 s hs).1
  change Written eng .bit1 l k oobsize s.buf s.oob_poi
    (s3c_nand_write_page_1bit eng (Format.bit1.mtd l k oobsize) (cmdfunc s .seqin 0)).cells at hw
  rw [hgood] at hw
  rcases spare_repaired hloc h4 hsize hw (cmdfunc r .read0 0) hr hoob with
    ⟨_, _, _, _, _, found, hspare, hfound⟩
  change found = good ∨ found = r.cells ∧ ¬Kept good r.cells (512 * k) oobsize ∧
    (¬Marked (fun x ↦ r.cells (512 * k + x)) → Kept good r.cells (512 * k) (oobsize - 4)) at hfound
  have hsteps := @mtd_steps .bit1 l k oobsize
  have hdef : t = decode_steps_1bit eng (Format.bit1.mtd l k oobsize) k 0 0 0
      (check_spare_1bit eng (oobsize - 4)
        (fetch_spare_1bit eng (Format.bit1.mtd l k oobsize) (cmdfunc r .read0 0))) := by
    simp only [t, s3c_nand_read_page_1bit, hsteps]
    rfl
  generalize check_spare_1bit eng (oobsize - 4)
    (fetch_spare_1bit eng (Format.bit1.mtd l k oobsize) (cmdfunc r .read0 0)) = m at hspare hdef
  have hfound' : found = good ∨ found = r.cells ∧ ∀ j < k, Kept good r.cells (512 * j) 512 ∨
      r.cells.load (512 * k + (l.pos 0 + j * 4)) 4 = good.load (512 * k + (l.pos 0 + j * 4)) 4 := by
    refine hfound.imp_right fun h ↦ ⟨h.1, fun j hj ↦ ?_⟩
    by_cases hmark : Marked fun x ↦ r.cells (512 * k + x)
    · exact hone hmark j hj
    · exact Or.inr ((h.2.2 hmark).load (by omega))
  have hstep : ∀ j < k, _ := fun j hj ↦
    step_found hloc hroom hw hdata hoob hfound' r.oob_poi hj
  have hloop := decode_steps_1bit_restores eng (Format.bit1.mtd l k oobsize) rfl good k 0 0 m
    (by rw [hspare]; exact hr) hsteps.ge
  simp only [hsteps, Nat.sub_self, Nat.mul_zero] at hloop
  rcases hloop (by rw [hspare]; exact fun j hj ↦ (hstep j hj).1) with ⟨_, _, _, _, _, _, heq, hfailed⟩
  rw [hspare] at heq hfailed
  rw [hdef, hspare, heq]
  refine ⟨?_, fun hsound ↦ ?_⟩
  · show (r.buf.store 0 (good.load 0 (k * 512))).load 0 (512 * k) = _
    rw [← hw.page, Nat.mul_comm k 512]
    exact Mem.load_store_same_of_eq _ _ _ _ (Mem.load_length ..)
  · have hrepaired : found = good ∨ found = r.cells ∧ Kept good r.cells (512 * k) (oobsize - 4) := by
      refine hfound.imp_right fun h ↦ ⟨h.1, ?_⟩
      rcases hsound with hmark | hkept
      · exact h.2.2 hmark
      · exact absurd hkept h.2.1
    constructor
    · exact hfailed fun j hj ↦ (hstep j hj).2 (hrepaired.imp_right And.right)
    · intro x hx hout
      have hin := Mem.store_load_inside r.oob_poi found 0 (512 * k) oobsize x (by omega)
      rw [Nat.zero_add] at hin
      show r.oob_poi.store 0 (Mem.load found (512 * k) oobsize) x = _
      rw [hin, ← hw.kept x hx hout]
      rcases hrepaired with rfl | ⟨rfl, hkept⟩
      · rfl
      · exact hkept x hx

/-! ## An engine that locates wrong bits -/

-- The number of a bit, with its complement above it.
def mark (n : Nat) : Word := BitVec.ofNat 32 (n + (16383 - n) * 2 ^ 14)

def byteMarks (i : Nat) (x : Byte) : Word :=
  (List.range 8).foldr (fun b w ↦ (if x.getLsbD b then mark (8 * i + b) else 0) ^^^ w) 0

def marks : Nat → List Byte → Word
  | _, [] => 0
  | i, x :: xs => byteMarks i x ^^^ marks (i + 1) xs

def pack (code : List Byte) : Word :=
  (code.getD 3 0 ++ code.getD 2 0 ++ code.getD 1 0 ++ code.getD 0 0 : BitVec 32)

-- The numbers of the bits of the bytes, added up; the difference of two sums tells which bit is wrong.
def marking_engine : EccEngine where
  encode _ stream _ := marks 0 stream
  status t stream supplied :=
    if supplied = ecc_code t fun _ ↦ marks 0 stream then ⟨0, 0, 0, 0, 0, 0, 0, 0⟩
    else
      let s := marks 0 stream ^^^ pack supplied
      let n := s &&& 0x3fff
      if s = mark n.toNat then ⟨(n <<< 4) + 1, 0, 0, 0, 0, 0, 0, 0⟩
      else ⟨2, 0, 0, 0, 0, 0, 0, 0⟩
  accepts t stream := by
    rw [if_pos rfl]
    cases t <;> rfl

theorem byteMarks_xor (i : Nat) (x y : Byte) : byteMarks i (x ^^^ y) = byteMarks i x ^^^ byteMarks i y := by
  have hpick : ∀ (p q : Bool) (w : Word),
      (if (p ^^ q) then w else 0) = (if p then w else 0) ^^^ (if q then w else 0) := by
    intro p q w
    cases p <;> cases q <;> simp
  unfold byteMarks
  induction List.range 8 with
  | nil => exact BitVec.xor_zero.symm
  | cons b bs ih =>
    rw [List.foldr_cons, List.foldr_cons, List.foldr_cons, ih, BitVec.getLsbD_xor, hpick]
    ac_rfl

theorem byteMarks_bit (i : Nat) {b : Nat} (hb : b < 8) : byteMarks i ((1 : Byte) <<< b) = mark (8 * i + b) := by
  have hbits : ∀ b < 8, ∀ j < 8, ((1 : Byte) <<< b).getLsbD j = decide (j = b) := by decide
  have hfold : ∀ js : List Nat, (∀ j ∈ js, j < 8) → js.Nodup →
      js.foldr (fun j w ↦ (if ((1 : Byte) <<< b).getLsbD j then mark (8 * i + j) else 0) ^^^ w) 0 =
        if b ∈ js then mark (8 * i + b) else 0 := by
    intro js hjs hnd
    induction js with
    | nil => rfl
    | cons j js ih =>
      rw [List.foldr_cons, ih (fun x hx ↦ hjs x (List.mem_cons_of_mem _ hx)) hnd.of_cons,
        hbits b hb j (hjs j List.mem_cons_self)]
      have hnot := (List.nodup_cons.mp hnd).1
      by_cases hj : j = b
      · subst hj
        simp [hnot]
      · simp [hj, Ne.symm hj]
  rw [byteMarks, hfold _ (fun j hj ↦ List.mem_range.mp hj) List.nodup_range, if_pos (List.mem_range.mpr hb)]

theorem marks_flipBit {b : Nat} (hb : b < 8) (bytes : List Byte) (i j : Nat) (hi : i < bytes.length) :
    marks j (flipBit bytes i b) = marks j bytes ^^^ mark (8 * (j + i) + b) := by
  induction bytes generalizing i j with
  | nil => cases hi
  | cons x xs ih =>
    cases i with
    | zero =>
      show byteMarks j (x ^^^ (1 : Byte) <<< b) ^^^ marks (j + 1) xs = _
      rw [byteMarks_xor, byteMarks_bit j hb, Nat.add_zero]
      show _ = byteMarks j x ^^^ marks (j + 1) xs ^^^ _
      ac_rfl
    | succ i =>
      have hi' : i < xs.length := Nat.lt_of_succ_lt_succ hi
      show byteMarks j x ^^^ marks (j + 1) (flipBit xs i b) = _
      rw [ih i (j + 1) hi', show j + 1 + i = j + (i + 1) by omega]
      exact (BitVec.xor_assoc ..).symm

theorem pack_ecc_code (w : Word) : pack (ecc_code .slc fun _ ↦ w) = w := by
  show byteOf w 3 ++ byteOf w 2 ++ byteOf w 1 ++ byteOf w 0 = w
  ext i hi
  simp only [byteOf, BitVec.getElem_append]
  split
  · simp [BitVec.getLsbD_eq_getElem hi]
  · split
    · simp only [BitVec.getElem_setWidth, BitVec.getLsbD_ushiftRight]
      rw [show 8 * 1 + (i - 8) = i by omega, BitVec.getLsbD_eq_getElem hi]
    · split
      · simp only [BitVec.getElem_setWidth, BitVec.getLsbD_ushiftRight]
        rw [show 8 * 2 + (i - 8 - 8) = i by omega, BitVec.getLsbD_eq_getElem hi]
      · simp only [BitVec.getElem_setWidth, BitVec.getLsbD_ushiftRight]
        rw [show 8 * 3 + (i - 8 - 8 - 8) = i by omega, BitVec.getLsbD_eq_getElem hi]

-- A wrong bit of the code is not the number of a bit.
theorem bit_ne_mark : ∀ n < 32, (1 : Word) <<< n ≠ mark (((1 : Word) <<< n) &&& 0x3fff).toNat := by
  decide

theorem mark_number {n : Nat} (hn : n < 2 ^ 14) : (mark n &&& 0x3fff).toNat = n := by
  have hmod : ∀ x : Nat, x &&& 0x3fff = x % 2 ^ 14 := fun x ↦ Nat.and_two_pow_sub_one_eq_mod x 14
  rw [BitVec.toNat_and, mark, BitVec.toNat_ofNat, show (0x3fff : Word).toNat = 0x3fff from rfl, hmod]
  omega

theorem report_fields {w : Word} {i b : Nat} (hb : b < 8) (hi : i < 2 ^ 11) (hw : w.toNat = 8 * i + b) :
    let r : ErrorRegs := ⟨(w <<< 4) + 1, 0, 0, 0, 0, 0, 0, 0⟩
    err_type .slc r = 1 ∧ ((r.nfmeccerr0 >>> 7) &&& 0x7ff).toNat = i ∧
      ((r.nfmeccerr0 >>> 4) &&& 0x7).toNat = b := by
  intro r
  have h0 : r.nfmeccerr0.toNat = (8 * i + b) * 16 + 1 := by
    show ((w <<< 4) + 1 : Word).toNat = _
    rw [BitVec.toNat_add, BitVec.toNat_shiftLeft, hw, Nat.shiftLeft_eq]
    show ((8 * i + b) * 2 ^ 4 % 2 ^ 32 + 1) % 2 ^ 32 = _
    omega
  have hmod : ∀ x k : Nat, x &&& (2 ^ k - 1) = x % 2 ^ k := Nat.and_two_pow_sub_one_eq_mod
  have h11 := hmod (((8 * i + b) * 16 + 1) / 2 ^ 7) 11
  have h3 := hmod (((8 * i + b) * 16 + 1) / 2 ^ 4) 3
  have h2 := hmod ((8 * i + b) * 16 + 1) 2
  refine ⟨BitVec.eq_of_toNat_eq ?_, ?_, ?_⟩
  · show (r.nfmeccerr0 &&& 0x3).toNat = 1
    rw [BitVec.toNat_and, h0]
    exact h2.trans (by omega)
  · rw [BitVec.toNat_and, BitVec.toNat_ushiftRight, h0, Nat.shiftRight_eq_div_pow]
    exact h11.trans (by omega)
  · rw [BitVec.toNat_and, BitVec.toNat_ushiftRight, h0, Nat.shiftRight_eq_div_pow]
    exact h3.trans (by omega)

theorem pack_flipBit {code : List Byte} (hlen : code.length = 4) {i b : Nat} (hi : i < 4) (hb : b < 8) :
    pack (flipBit code i b) = pack code ^^^ (1 : Word) <<< (8 * i + b) := by
  obtain ⟨c0, c1, c2, c3, rfl⟩ : ∃ c0 c1 c2 c3, code = [c0, c1, c2, c3] := by
    match code, hlen with
    | [c0, c1, c2, c3], _ => exact ⟨c0, c1, c2, c3, rfl⟩
  have hbits : ∀ i < 4, ∀ b < 8, (1 : Word) <<< (8 * i + b) = pack (flipBit [0, 0, 0, 0] i b) := by decide
  have hxor : ∀ y0 y1 y2 y3 : Byte, pack [c0 ^^^ y0, c1 ^^^ y1, c2 ^^^ y2, c3 ^^^ y3] =
      pack [c0, c1, c2, c3] ^^^ pack [y0, y1, y2, y3] := by
    intro y0 y1 y2 y3
    show (c3 ^^^ y3) ++ (c2 ^^^ y2) ++ (c1 ^^^ y1) ++ (c0 ^^^ y0) =
      (c3 ++ c2 ++ c1 ++ c0) ^^^ (y3 ++ y2 ++ y1 ++ y0)
    rw [BitVec.xor_append, BitVec.xor_append, BitVec.xor_append]
  rw [hbits i hi b hb]
  match i, hi with
  | 0, _ => simpa [flipBit] using hxor ((1 : Byte) <<< b) 0 0 0
  | 1, _ => simpa [flipBit] using hxor 0 ((1 : Byte) <<< b) 0 0
  | 2, _ => simpa [flipBit] using hxor 0 0 ((1 : Byte) <<< b) 0
  | 3, _ => simpa [flipBit] using hxor 0 0 0 ((1 : Byte) <<< b)

theorem xor_xor_left (v w : Word) : v ^^^ w ^^^ v = w := by
  rw [BitVec.xor_comm v w, BitVec.xor_assoc, BitVec.xor_self, BitVec.xor_zero]

theorem marking_engine_locates : marking_engine.Locates := by
  constructor
  case data =>
    intro bytes i b hlen hi hb
    let n := 8 * i + b
    have hn : n < 2 ^ 14 := by omega
    have hflip : marks 0 (flipBit bytes i b) = marks 0 bytes ^^^ mark n := by
      rw [marks_flipBit hb bytes i 0 hi, Nat.zero_add]
    have hne : mark n ≠ 0 := by
      intro h0
      have hn0 := mark_number hn
      rw [h0] at hn0
      rw [← hn0] at h0
      exact absurd h0 (by decide)
    have hpack : ∀ m, pack (marking_engine.code .slc m) = marks 0 m := fun m ↦ pack_ecc_code _
    have hcode : ¬marking_engine.code .slc bytes = ecc_code .slc fun _ ↦ marks 0 (flipBit bytes i b) := by
      intro h
      have heq := congrArg pack h
      rw [hpack, pack_ecc_code, hflip] at heq
      exact hne (by rw [← xor_xor_left (marks 0 bytes) (mark n), ← heq, BitVec.xor_self]; rfl)
    have hstatus : marking_engine.status .slc (flipBit bytes i b) (marking_engine.code .slc bytes) =
        ⟨((mark n &&& 0x3fff) <<< 4) + 1, 0, 0, 0, 0, 0, 0, 0⟩ := by
      show (if marking_engine.code .slc bytes = ecc_code .slc (fun _ ↦ marks 0 (flipBit bytes i b)) then _
        else _) = _
      rw [if_neg hcode, hpack, hflip, xor_xor_left, mark_number hn, if_pos rfl]
    rw [hstatus]
    exact report_fields hb (by omega) (mark_number hn)
  case code =>
    intro bytes i b hlen hi hb
    let n := 8 * i + b
    have hpack : pack (flipBit (marking_engine.code .slc bytes) i b) = marks 0 bytes ^^^ (1 : Word) <<< n := by
      rw [pack_flipBit rfl hi hb]
      exact congrArg (· ^^^ (1 : Word) <<< n) (pack_ecc_code _)
    have hne : (1 : Word) <<< n ≠ 0 := by
      have hall : ∀ n < 32, (1 : Word) <<< n ≠ 0 := by decide
      exact hall n (by omega)
    have hcode : ¬flipBit (marking_engine.code .slc bytes) i b = ecc_code .slc fun _ ↦ marks 0 bytes := by
      intro h
      have heq := congrArg pack h
      rw [hpack, pack_ecc_code] at heq
      exact hne (by rw [← xor_xor_left (marks 0 bytes) ((1 : Word) <<< n), heq, BitVec.xor_self]; rfl)
    have hstatus : marking_engine.status .slc bytes (flipBit (marking_engine.code .slc bytes) i b) =
        ⟨2, 0, 0, 0, 0, 0, 0, 0⟩ := by
      show (if flipBit (marking_engine.code .slc bytes) i b = ecc_code .slc (fun _ ↦ marks 0 bytes) then _
        else _) = _
      rw [if_neg hcode, hpack, ← BitVec.xor_assoc, BitVec.xor_self, BitVec.zero_xor,
        if_neg (bit_ne_mark n (by omega))]
    rw [hstatus]
    exact (by decide : (2 : Word) &&& 0x3 ≠ 1)

-- In a page of 2048 bytes, a wrong bit in each of the first two steps and one in the code of the last.
theorem read_page_single_bits_three :
    let s : State := { booted (fun _ ↦ 0xff) with nand_type := .slc, buf := fun i ↦ BitVec.ofNat 8 i }
    let mtd := Format.bit1.mtd s3c_nand_oob_64 4 64
    let w := s3c_nand_write_page_1bit marking_engine mtd (cmdfunc s .seqin 0)
    let wrong := flip (flip (flip w.cells 5 ((1 : Byte) <<< 0)) 700 ((1 : Byte) <<< 3)) 2102 ((1 : Byte) <<< 6)
    let r : State := { booted wrong with nand_type := .slc }
    (s3c_nand_read_page_1bit marking_engine mtd (cmdfunc r .read0 0)).buf.load 0 2048 = s.buf.load 0 2048 := by
  intro s mtd w wrong r
  have hoff : ∀ x, x ≠ 5 → x ≠ 700 → x ≠ 2102 → wrong x = w.cells x := by
    intro x h5 h700 h2102
    exact (flip_of_ne h2102).trans ((flip_of_ne h700).trans (flip_of_ne h5))
  have hfirst : Flipped w.cells wrong 0 512 5 0 := by
    intro x hx
    exact (flip_of_ne (by omega)).trans (flip_of_ne (by omega))
  have hsecond : Flipped w.cells wrong 512 512 188 3 := by
    intro x hx
    exact (flip_of_ne (by omega)).trans (flip_congr (flip_of_ne (by omega)) (flip_of_ne (by decide)))
  have hoob : Flipped w.cells wrong 2048 64 54 6 := by
    intro x hx
    exact flip_congr ((flip_of_ne (by omega)).trans (flip_of_ne (by omega)))
      ((flip_of_ne (by decide)).trans (flip_of_ne (by decide)))
  have hkept : ∀ j, 2 ≤ j → j < 4 → Kept w.cells wrong (512 * j) 512 :=
    fun j hj hj' x hx ↦ hoff _ (by omega) (by omega) (by omega)
  have hcode : ∀ j < 2, Mem.load wrong (2048 + (40 + j * 4)) 4 = w.cells.load (2048 + (40 + j * 4)) 4 :=
    fun j hj ↦ Mem.load_congr fun x hx ↦ hoff _ (by omega) (by omega) (by omega)
  have hdata : ∀ j < 4, OneFlip w.cells wrong (512 * j) 512 := by
    intro j hj
    match j, hj with
    | 0, _ => exact Or.inr ⟨5, by decide, 0, by decide, hfirst⟩
    | 1, _ => exact Or.inr ⟨188, by decide, 3, by decide, hsecond⟩
    | 2, _ => exact Or.inl (hkept 2 (by decide) (by decide))
    | 3, _ => exact Or.inl (hkept 3 (by decide) (by decide))
  exact (read_page_single_bits marking_engine marking_engine_locates
    (List.mem_cons_of_mem _ List.mem_cons_self) (by decide) (by decide) (by decide) (by decide) s r rfl rfl
    rfl hdata (Or.inr ⟨54, by decide, 6, by decide, hoob⟩) fun _ j hj ↦ by
      rcases Nat.lt_or_ge j 2 with h | h
      · exact Or.inr (hcode j h)
      · exact Or.inl (hkept j h hj)).1

end OK210Drivers.Nand
