import OK210Drivers.Nand.RoundTrip

/-!
# The OOB functions of the 1-bit format

`s3c_nand_write_oob_1bit` and `s3c_nand_read_oob_1bit` handle the OOB area without the page.  They share
the code of the OOB area, and its exception for jffs2, with the page functions.
-/

open Library

namespace OK210Drivers.Nand

def EIO : Int := 5

/-- `READOOB` of a chip with large pages: the page is read with the column behind its main area. -/
def readoob (mtd : Mtd) (s : State) : State := cmdfunc s .read0 mtd.writesize

/-- `s3c_nand_write_oob_1bit`, where `fail` says whether the chip reports that programming failed.  The
spare area is written as `s3c_nand_write_page_1bit` does it. -/
def s3c_nand_write_oob_1bit (eng : EccEngine) (mtd : Mtd) (fail : Bool) (s : State) : Int × State :=
  let s := cmdfunc s .seqin mtd.writesize
  let s := write_spare_1bit eng mtd s
  (if fail then - EIO else 0, s)

/-- The OOB area read from where the chip stands. -/
def read_spare_1bit (eng : EccEngine) (mtd : Mtd) (s : State) : State :=
  let eccbytes := mtd.ecc.bytes
  let secc_start := mtd.oobsize - eccbytes
  let s := s3c_nand_enable_hwecc s .read
  let (bytes, s) := read_buf s secc_start
  let s := { s with oob_poi := s.oob_poi.store 0 bytes }
  let (code, s) := s3c_nand_calculate_ecc eng s
  let s := { s with ecccalc := s.ecccalc.store mtd.ecc.total code }
  let (bytes, s) := read_buf s eccbytes
  { s with oob_poi := s.oob_poi.store secc_start bytes }

def s3c_nand_read_oob_1bit (eng : EccEngine) (mtd : Mtd) (sndcmd : Bool) (s : State) : Bool × State :=
  let (sndcmd, s) := if sndcmd then (false, readoob mtd s) else (sndcmd, s)
  let s := read_spare_1bit eng mtd s
  let s := check_spare_1bit eng (mtd.oobsize - mtd.ecc.bytes) s
  (sndcmd, s)

/-! ## What they do -/

section Oob

variable (eng : EccEngine) {l : Layout} {k oobsize : Nat}

/-- The mark of jffs2 in an OOB area. -/
def Marked (oob : Mem Byte) : Prop := oob 2 = 0x85 ∧ oob 3 = 0x19

instance (oob : Mem Byte) : Decidable (Marked oob) := inferInstanceAs (Decidable (_ ∧ _))

/-- The OOB area behind the page in `cells` is read without a correction: its code fits, or it has the
mark of jffs2 and the code is not looked at. -/
def SpareSound (k oobsize : Nat) (cells : Mem Byte) : Prop :=
  cells.load (512 * k + (oobsize - 4)) 4 = eng.code .slc (cells.load (512 * k) (oobsize - 4)) ∨
    Marked fun x ↦ cells (512 * k + x)

/-- Only the place where the chip stands matters to `read_spare_1bit`. -/
theorem read_oob_1bit_eq (mtd : Mtd) (s : State) :
    (s3c_nand_read_oob_1bit eng mtd true s).2 =
      check_spare_1bit eng (mtd.oobsize - mtd.ecc.bytes) (fetch_spare_1bit eng mtd s) := rfl

theorem check_spare_1bit_marked (secc_start : Nat) {s : State} (h : Marked s.oob_poi) :
    check_spare_1bit eng secc_start s = s :=
  if_neg (not_not_intro h)

/-- Reading a sound OOB area leaves it in `oob_poi` as it is in the chip. -/
theorem spare_sound_eq (h4 : 4 ≤ oobsize) (r : State) (ht : r.nand_type = .slc)
    (h : SpareSound eng k oobsize r.cells) :
    ∃ col programming ecc ecccalc tr,
      check_spare_1bit eng (oobsize - 4) (fetch_spare_1bit eng (Format.bit1.mtd l k oobsize) r) = { r with
        col := col
        programming := programming
        ecc := ecc
        oob_poi := r.oob_poi.store 0 (r.cells.load (512 * k) oobsize)
        ecccalc := ecccalc
        trace := r.trace ++ tr } := by
  rcases fetch_spare_1bit_eq eng (l := l) (k := k) h4 r ht with ⟨col, pr, e, calc', tr, hfetch, hstream, -⟩
  generalize fetch_spare_1bit eng (Format.bit1.mtd l k oobsize) r = s at hfetch
  have hoob : ∀ x < oobsize, s.oob_poi x = r.cells (512 * k + x) := by
    intro x hx
    have hin := Mem.store_load_inside r.oob_poi r.cells 0 (512 * k) oobsize x hx
    rw [Nat.zero_add] at hin
    rw [hfetch]
    exact hin
  rcases h with hcode | hmark
  · have hload : s.oob_poi.load (oobsize - 4) 4 = eng.code .slc s.ecc.stream := by
      have hwindow := Mem.load_store_load r.oob_poi r.cells 0 (512 * k) oobsize (oobsize - 4) 4 (by omega)
      rw [Nat.zero_add] at hwindow
      simp only [hfetch, hwindow, hstream]
      exact hcode
    rcases check_spare_1bit_eq eng s (by rw [hfetch]; exact ht) (oobsize - 4) hload with
      ⟨e', tr', hcheck, -⟩
    refine ⟨col, pr, e', calc', tr ++ tr', ?_⟩
    rw [hcheck, hfetch, ← List.append_assoc]
  · have hmarked : Marked s.oob_poi := by
      have h2 := hoob 2 (by omega)
      have h3 := hoob 3 (by omega)
      exact ⟨h2.trans hmark.1, h3.trans hmark.2⟩
    refine ⟨col, pr, e, calc', tr, ?_⟩
    rw [check_spare_1bit_marked eng _ hmarked, hfetch]

/-- `s3c_nand_read_oob_1bit` on a sound OOB area. -/
theorem read_oob_1bit_sound (h4 : 4 ≤ oobsize) (r : State) (ht : r.nand_type = .slc)
    (h : SpareSound eng k oobsize r.cells) :
    (s3c_nand_read_oob_1bit eng (Format.bit1.mtd l k oobsize) true r).2.oob_poi =
      r.oob_poi.store 0 (r.cells.load (512 * k) oobsize) := by
  rcases spare_sound_eq eng (l := l) h4 r ht h with ⟨_, _, _, _, _, heq⟩
  rw [read_oob_1bit_eq]
  exact congrArg State.oob_poi heq

/-- `s3c_nand_read_page_1bit` on a page with the codes of its steps and a sound OOB area: what is in the
chip arrives, and no failure is counted. -/
theorem read_page_1bit_sound (h4 : 4 ≤ oobsize) (hroom : l.pos 0 + k * 4 ≤ oobsize) (r : State)
    (ht : r.nand_type = .slc) (h : SpareSound eng k oobsize r.cells)
    (hmain : r.cells.load (512 * k + l.pos 0) (k * 4) = codes eng .slc (chunks r.cells 512 k 0)) :
    let t := s3c_nand_read_page_1bit eng (Format.bit1.mtd l k oobsize) r
    t.buf = r.buf.store 0 (r.cells.load 0 (512 * k)) ∧ t.failed = r.failed ∧
      t.oob_poi = r.oob_poi.store 0 (r.cells.load (512 * k) oobsize) := by
  intro t
  have hsteps := @mtd_steps .bit1 l k oobsize
  rcases spare_sound_eq eng (l := l) h4 r ht h with ⟨_, _, _, _, _, hspare⟩
  have hdef : t = decode_steps_1bit eng (Format.bit1.mtd l k oobsize) k 0 0 0
      (check_spare_1bit eng (oobsize - 4) (fetch_spare_1bit eng (Format.bit1.mtd l k oobsize) r)) := by
    simp only [t, s3c_nand_read_page_1bit, hsteps]
    rfl
  generalize check_spare_1bit eng (oobsize - 4) (fetch_spare_1bit eng (Format.bit1.mtd l k oobsize) r) = s
    at hspare hdef
  have hgather : s.oob_poi.load (l.pos 0) (k * 4) = codes eng .slc (chunks s.cells 512 k 0) := by
    have hwindow := Mem.load_store_load r.oob_poi r.cells 0 (512 * k) oobsize (l.pos 0) (k * 4) hroom
    rw [Nat.zero_add] at hwindow
    rw [hspare]
    exact hwindow.trans hmain
  have hloop := decode_steps_1bit_eq eng (Format.bit1.mtd l k oobsize) rfl k 0 0 s
    (by rw [hspare]; exact ht) hsteps.ge
  simp only [hsteps, Nat.sub_self, Nat.zero_mul, Nat.mul_zero, Nat.add_zero] at hloop
  rcases hloop hgather with ⟨_, _, _, _, _, heq, -⟩
  rw [hdef, heq]
  refine ⟨?_, ?_, ?_⟩
  · show s.buf.store 0 (s.cells.load 0 (k * 512)) = _
    rw [hspare, Nat.mul_comm]
  · show s.failed = r.failed
    rw [hspare]
  · show s.oob_poi = _
    rw [hspare]

/-- What the page register holds after `s3c_nand_write_oob_1bit`. -/
theorem write_oob_1bit_cells (h4 : 4 ≤ oobsize) (fail : Bool) (s : State) (ht : s.nand_type = .slc) :
    (s3c_nand_write_oob_1bit eng (Format.bit1.mtd l k oobsize) fail s).2.cells =
      s.cells.store (512 * k) ((s.oob_poi.store (oobsize - 4)
        (eng.code .slc (s.oob_poi.load 0 (oobsize - 4)))).load 0 oobsize) :=
  (write_spare_1bit_eq eng (l := l) (k := k) h4 (cmdfunc s .seqin (512 * k)) ht rfl).2

end Oob

end OK210Drivers.Nand
