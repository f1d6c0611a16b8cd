import OK210Drivers.Nand.Steps

/-!
# Reading a page undoes writing it
-/

open Library

namespace OK210Drivers.Nand

/-- The MTD of a chip with `k` steps a page, `oobsize` OOB bytes and one of the layouts. -/
def Format.mtd (fmt : Format) (l : Layout) (k oobsize : Nat) : Mtd :=
  nand_scan_tail (512 * k) oobsize 512 fmt.bytes l

section Pages

variable (eng : EccEngine) (fmt : Format) {l : Layout} {k oobsize : Nat}

/-- The codes of the steps of the page in `m`. -/
def page_codes (m : Mem Byte) (k : Nat) : List (List Byte) :=
  (chunks m 512 k 0).map (eng.code fmt.nand_type)

/-- What a chip holds after a page was written: the data, the codes of its steps at the layout's
positions, the other OOB bytes and, for one bit, the code of the OOB area behind it. -/
structure Written (l : Layout) (k oobsize : Nat) (buf oob cells : Mem Byte) : Prop where
  page : cells.load 0 (512 * k) = buf.load 0 (512 * k)
  main : cells.load (512 * k + l.pos 0) (k * fmt.bytes) =
    codes eng fmt.nand_type (chunks buf 512 k 0)
  kept : ∀ x < oobsize - fmt.spare_bytes, x < l.pos 0 ∨ l.pos 0 + k * fmt.bytes ≤ x →
    cells (512 * k + x) = oob x
  spare : fmt = .bit1 → cells.load (512 * k + (oobsize - 4)) 4 =
    eng.code .slc (cells.load (512 * k) (oobsize - 4))

-- The OOB area with the codes scattered into it.
theorem scatter_codes (hl : l.Contiguous) (hfit : k * fmt.bytes ≤ l.eccbytes) (ecccalc oob buf : Mem Byte) :
    scatter l.pos (ecccalc.store 0 (codes eng fmt.nand_type (chunks buf 512 k 0))) (k * fmt.bytes) oob =
      oob.store (l.pos 0) (codes eng fmt.nand_type (chunks buf 512 k 0)) := by
  have hlen : (codes eng fmt.nand_type (chunks buf 512 k 0)).length = k * fmt.bytes := by
    rw [codes_length, chunks_length]
  rw [scatter_contiguous (fun i hi ↦ hl.pos_eq (by omega)), Mem.load_store_same_of_eq _ _ _ _ hlen]

theorem mtd_steps : (fmt.mtd l k oobsize).ecc.steps = k :=
  Nat.mul_div_cancel_left k (by decide)

theorem mtd_total : (fmt.mtd l k oobsize).ecc.total = k * fmt.bytes := by
  have hsteps : 512 * k / 512 = k := Nat.mul_div_cancel_left k (by decide)
  simp only [Format.mtd, nand_scan_tail, hsteps]

/-! ## Writing -/

theorem write_page_mlc_eq (hl : l.Contiguous) (hfit : k * fmt.bytes ≤ l.eccbytes) (s : State)
    (ht : s.nand_type = fmt.nand_type) (hp : s.programming = true) (hcol : s.col = 0) :
    ∃ tr, (write_page_mlc eng (fmt.mtd l k oobsize) 512 fmt.bytes k (k * fmt.bytes) s).trace =
        s.trace ++ tr ∧
      computed_codes tr = page_codes eng fmt s.buf k ∧
      (write_page_mlc eng (fmt.mtd l k oobsize) 512 fmt.bytes k (k * fmt.bytes) s).cells =
        (s.cells.store 0 (s.buf.load 0 (512 * k))).store (512 * k)
          ((s.oob_poi.store (l.pos 0) (codes eng fmt.nand_type (chunks s.buf 512 k 0))).load 0
            oobsize) := by
  rcases encode_steps_eq eng fmt 512 k 0 0 s ht hp with ⟨ecc, tr, heq, htr⟩
  refine ⟨tr, ?_, htr, ?_⟩
  · simp [write_page_mlc, heq, write_buf, hp]
  · have hsc := scatter_codes eng fmt hl hfit s.ecccalc s.oob_poi s.buf
    simp only [write_page_mlc, heq, write_buf, hp, hcol, if_true]
    rw [show (fmt.mtd l k oobsize).ecc.layout = l from rfl, hsc, Nat.mul_comm k 512, Nat.zero_add]
    rfl

/-- What the MLC writers leave in the chip. -/
theorem written_mlc (hmlc : fmt ≠ .bit1) (hroom : l.pos 0 + k * fmt.bytes ≤ oobsize)
    (cells buf oob : Mem Byte) :
    Written eng fmt l k oobsize buf oob
      ((cells.store 0 (buf.load 0 (512 * k))).store (512 * k)
        ((oob.store (l.pos 0) (codes eng fmt.nand_type (chunks buf 512 k 0))).load 0 oobsize)) := by
  have hlen : (codes eng fmt.nand_type (chunks buf 512 k 0)).length = k * fmt.bytes := by
    rw [codes_length, chunks_length]
  constructor
  case page =>
    rw [Mem.load_store_disjoint _ _ _ _ _ (by omega)]
    exact Mem.load_store_same_of_eq _ _ _ _ (Mem.load_length ..)
  case main =>
    rw [Mem.load_store_load _ _ _ _ _ _ _ hroom, Nat.zero_add]
    exact Mem.load_store_same_of_eq _ _ _ _ hlen
  case kept =>
    intro x hx hout
    rw [Mem.store_load_inside _ _ _ _ _ _ (by omega), Nat.zero_add]
    exact Mem.store_outside _ _ _ _ (by rwa [hlen])
  case spare => exact fun h ↦ absurd h hmlc

-- The last four OOB bytes get the code of those before them.
theorem write_spare_1bit_eq (h4 : 4 ≤ oobsize) (s : State) (ht : s.nand_type = .slc)
    (hp : s.programming = true) :
    let code := eng.code .slc (s.oob_poi.load 0 (oobsize - 4))
    (write_spare_1bit eng (Format.bit1.mtd l k oobsize) s).trace = s.trace ++ [.computed code] ∧
      (write_spare_1bit eng (Format.bit1.mtd l k oobsize) s).cells =
        s.cells.store s.col ((s.oob_poi.store (oobsize - 4) code).load 0 oobsize) := by
  intro code
  have hlen : code.length = 4 := code_length eng .bit1 _
  let oob := s.oob_poi.store (oobsize - 4) code
  have hsc : ∀ (m : Mem Byte) (n : Nat), scatter (fun i ↦ oobsize - 4 + i)
      (fun i ↦ (m.store n code) (n + i)) 4 s.oob_poi = oob := by
    intro m n
    rw [scatter_contiguous (fun _ _ ↦ rfl)]
    have hload : Mem.load (fun i ↦ (m.store n code) (n + i)) 0 4 = (m.store n code).load n 4 :=
      Mem.load_congr_at fun i _ ↦ by rw [Nat.zero_add]
    rw [hload, Mem.load_store_same_of_eq _ _ _ _ hlen]
  have hfront : s.oob_poi.load 0 (oobsize - 4) = oob.load 0 (oobsize - 4) :=
    (Mem.load_store_disjoint _ _ _ _ _ (by omega)).symm
  constructor
  · simp [write_spare_1bit, s3c_nand_enable_hwecc, write_buf, s3c_nand_calculate_ecc, hp, ht, code,
      Format.mtd, nand_scan_tail, Format.bytes]
  · have hjoin : (s.cells.store s.col (oob.load 0 (oobsize - 4))).store (s.col + (oobsize - 4))
        (oob.load (oobsize - 4) 4) = s.cells.store s.col (oob.load 0 oobsize) := by
      have hadd := Mem.store_load_adjacent s.cells oob s.col 0 (oobsize - 4) 4
      rw [Nat.zero_add, Nat.sub_add_cancel h4] at hadd
      exact hadd
    rw [← hjoin, ← hfront, ← hsc s.ecccalc (512 * k / 512 * 4)]
    simp [write_spare_1bit, s3c_nand_enable_hwecc, write_buf, s3c_nand_calculate_ecc, hp, ht, code,
      Format.mtd, nand_scan_tail, Format.bytes]

-- The OOB bytes before the last ones, in the chip.
theorem load_front (cells oob : Mem Byte) (p r n : Nat) (code : List Byte) (h : r ≤ n) :
    (cells.store p ((oob.store r code).load 0 n)).load p r = oob.load 0 r := by
  have hwindow := Mem.load_store_load cells (oob.store r code) p 0 n 0 r (by omega)
  have hback : (oob.store r code).load 0 r = oob.load 0 r :=
    Mem.load_store_disjoint _ _ _ _ _ (by omega)
  simp only [Nat.add_zero, hback] at hwindow
  exact hwindow

theorem written_1bit (hroom : l.pos 0 + k * 4 ≤ oobsize - 4) (h4 : 4 ≤ oobsize)
    (cells buf oob oob' : Mem Byte)
    (hoob : oob' = oob.store (l.pos 0) (codes eng .slc (chunks buf 512 k 0))) :
    Written eng .bit1 l k oobsize buf oob
      ((cells.store 0 (buf.load 0 (512 * k))).store (512 * k)
        ((oob'.store (oobsize - 4) (eng.code .slc (oob'.load 0 (oobsize - 4)))).load 0 oobsize)) := by
  have hlen : (codes eng .slc (chunks buf 512 k 0)).length = k * 4 := by
    have hc := codes_length eng .bit1 (chunks buf 512 k 0)
    rw [chunks_length] at hc
    exact hc
  have hcode : (eng.code .slc (oob'.load 0 (oobsize - 4))).length = 4 := code_length eng .bit1 _
  constructor
  case page =>
    rw [Mem.load_store_disjoint _ _ _ _ _ (by omega)]
    exact Mem.load_store_same_of_eq _ _ _ _ (Mem.load_length ..)
  case main =>
    change Mem.load _ (512 * k + l.pos 0) (k * 4) = _
    rw [Mem.load_store_load _ _ _ _ _ _ _ (by omega), Nat.zero_add,
      Mem.load_store_disjoint _ _ _ _ _ (by omega), hoob]
    exact Mem.load_store_same_of_eq _ _ _ _ hlen
  case kept =>
    intro x hx hout
    change x < oobsize - 4 at hx
    change x < l.pos 0 ∨ l.pos 0 + k * 4 ≤ x at hout
    rw [Mem.store_load_inside _ _ _ _ _ _ (by omega), Nat.zero_add,
      Mem.store_below _ _ _ _ hx, hoob]
    exact Mem.store_outside _ _ _ _ (by rwa [hlen])
  case spare =>
    intro _
    rw [load_front _ _ _ _ _ _ (by omega), Mem.load_store_load _ _ _ _ _ _ _ (by omega), Nat.zero_add]
    exact Mem.load_store_same_of_eq _ _ _ _ hcode

/-- The code of the OOB area, which only the one-bit format has. -/
def spare_codes (k oobsize : Nat) (cells : Mem Byte) : List (List Byte) :=
  if fmt = .bit1 then [eng.code .slc (cells.load (512 * k) (oobsize - 4))] else []

/-- Writing a page leaves it, its codes and the other OOB bytes in the chip. -/
theorem write_page_written (hl : l.Contiguous) (hfit : k * fmt.bytes ≤ l.eccbytes)
    (hroom : l.pos 0 + k * fmt.bytes ≤ oobsize - fmt.spare_bytes) (hspare : fmt.spare_bytes ≤ oobsize)
    (s : State) (ht : s.nand_type = fmt.nand_type) :
    let w := fmt.write_page eng (fmt.mtd l k oobsize) (cmdfunc s .seqin 0)
    Written eng fmt l k oobsize s.buf s.oob_poi w.cells ∧
      ∃ tr, w.trace = s.trace ++ tr ∧
        computed_codes tr = page_codes eng fmt s.buf k ++ spare_codes eng fmt k oobsize w.cells := by
  intro w
  have hsteps : 512 * k / 512 = k := Nat.mul_div_cancel_left k (by decide)
  cases fmt with
  | bit1 =>
    change 4 ≤ oobsize at hspare
    let s₀ := cmdfunc s .seqin 0
    let oob := s.oob_poi.store (l.pos 0) (codes eng .slc (chunks s.buf 512 k 0))
    rcases encode_steps_eq eng .bit1 512 k 0 0 s₀ ht rfl with ⟨ecc, tr, heq, htr⟩
    have hsc := scatter_codes eng .bit1 hl hfit s.ecccalc s.oob_poi s.buf
    let s₁ : State := { s₀ with
      cells := s.cells.store 0 (s.buf.load 0 (k * 512))
      col := 0 + k * 512
      ecc := ecc
      ecccalc := s.ecccalc.store 0 (codes eng .slc (chunks s.buf 512 k 0))
      oob_poi := oob
      trace := s.trace ++ tr }
    have hw : w = write_spare_1bit eng (Format.bit1.mtd l k oobsize) s₁ := by
      let m := encode_steps eng 512 Format.bit1.bytes k 0 0 s₀
      have hdef : w = write_spare_1bit eng (Format.bit1.mtd l k oobsize)
          { m with oob_poi := scatter l.pos m.ecccalc (k * Format.bit1.bytes) m.oob_poi } := by
        simp only [w, m, s₀, Format.write_page, s3c_nand_write_page_1bit, mtd_steps, mtd_total]
        rfl
      rw [hdef, show m = _ from heq]
      exact congrArg (fun o ↦ write_spare_1bit eng _ { s₁ with oob_poi := o }) hsc
    have hs₁ : s₁.cells.store s₁.col = (s.cells.store 0 (s.buf.load 0 (512 * k))).store (512 * k) := by
      simp only [s₁, Nat.zero_add, Nat.mul_comm k 512]
    rcases write_spare_1bit_eq eng (l := l) (k := k) hspare s₁ ht rfl with ⟨htrace, hcells⟩
    have hwritten := written_1bit eng hroom hspare s.cells s.buf s.oob_poi oob rfl
    rw [hs₁] at hcells
    have hcode : eng.code .slc (oob.load 0 (oobsize - 4)) =
        eng.code .slc (w.cells.load (512 * k) (oobsize - 4)) := by
      rw [hw, hcells, load_front _ _ _ _ _ _ (by omega)]
    refine ⟨?_, tr ++ [.computed (eng.code .slc (oob.load 0 (oobsize - 4)))], ?_, ?_⟩
    · rw [hw, hcells]
      exact hwritten
    · rw [hw, htrace, ← List.append_assoc]
    · rw [spare_codes, if_pos rfl, ← hcode, computed_codes, List.filterMap_append]
      exact congrArg (· ++ _) htr
  | bit4 =>
    have hw : w = write_page_mlc eng (Format.bit4.mtd l k oobsize) 512 8 k (k * 8) (cmdfunc s .seqin 0) := by
      simp only [w, Format.write_page, s3c_nand_write_page_4bit, Format.mtd, nand_scan_tail, hsteps,
        Format.bytes]
    rcases write_page_mlc_eq eng .bit4 hl hfit (cmdfunc s .seqin 0) ht rfl rfl with ⟨tr, htr, hcodes, hcells⟩
    rw [hw]
    refine ⟨?_, tr, htr, by rw [hcodes]; simp [spare_codes, cmdfunc]⟩
    exact hcells ▸ written_mlc eng .bit4 (by decide) hroom _ _ _
  | bit8 =>
    have hw : w = write_page_mlc eng (Format.bit8.mtd l k oobsize) 512 13 k (k * 13)
        (cmdfunc s .seqin 0) := by
      simp only [w, Format.write_page, s3c_nand_write_page_8bit, Format.mtd, nand_scan_tail, hsteps,
        Format.bytes, Nat.mul_comm 13 k]
    rcases write_page_mlc_eq eng .bit8 hl hfit (cmdfunc s .seqin 0) ht rfl rfl with
      ⟨tr, htr, hcodes, hcells⟩
    rw [hw]
    refine ⟨?_, tr, htr, by rw [hcodes]; simp [spare_codes, cmdfunc]⟩
    exact hcells ▸ written_mlc eng .bit8 (by decide) hroom _ _ _

/-! ## Reading -/

/-- The one-bit format reads the OOB area in two parts and streams the first to the engine. -/
theorem fetch_spare_1bit_eq (h4 : 4 ≤ oobsize) (r : State) (ht : r.nand_type = .slc) :
    ∃ col programming ecc ecccalc tr, fetch_spare_1bit eng (Format.bit1.mtd l k oobsize) r = { r with
        col := col
        programming := programming
        ecc := ecc
        oob_poi := r.oob_poi.store 0 (r.cells.load (512 * k) oobsize)
        ecccalc := ecccalc
        trace := r.trace ++ tr } ∧
      ecc.stream = r.cells.load (512 * k) (oobsize - 4) ∧ supplied_codes tr = [] := by
  let front := r.cells.load (512 * k) (oobsize - 4)
  have hjoin : (r.oob_poi.store 0 front).store (oobsize - 4)
      (r.cells.load (512 * k + (oobsize - 4)) 4) =
      r.oob_poi.store 0 (r.cells.load (512 * k) oobsize) := by
    have hadd := Mem.store_load_adjacent r.oob_poi r.cells 0 (512 * k) (oobsize - 4) 4
    rw [Nat.zero_add, Nat.sub_add_cancel h4] at hadd
    exact hadd
  refine ⟨512 * k + (oobsize - 4) + 4, false,
    { r.ecc with mode := .read, stream := front, supplied := [], locked := true },
    r.ecccalc.store (Format.bit1.mtd l k oobsize).ecc.total (eng.code .slc front),
    [.computed (eng.code .slc front)], ?_, rfl, rfl⟩
  rw [← hjoin]
  simp [fetch_spare_1bit, cmdfunc, s3c_nand_enable_hwecc, read_buf, s3c_nand_calculate_ecc, ht, front,
    Format.mtd, nand_scan_tail, Format.bytes]

/-- The engine agrees with the code of the OOB area, unless it is not asked because of jffs2. -/
theorem check_spare_1bit_eq (s : State) (ht : s.nand_type = .slc) (secc_start : Nat)
    (hcode : s.oob_poi.load secc_start 4 = eng.code .slc s.ecc.stream) :
    ∃ ecc tr, check_spare_1bit eng secc_start s = { s with ecc := ecc, trace := s.trace ++ tr } ∧
      (supplied_codes tr = [] ∨ supplied_codes tr = [eng.code .slc s.ecc.stream]) := by
  rcases correct_data_slc_eq eng s ht s.oob_poi s.oob_poi 0 secc_start hcode with ⟨ecc, hcorrect⟩
  unfold check_spare_1bit
  split
  · rw [hcorrect]
    exact ⟨ecc, [.supplied (eng.code .slc s.ecc.stream)], rfl, Or.inr rfl⟩
  · exact ⟨s.ecc, [], by simp, Or.inl rfl⟩

theorem Written.chunks_eq {buf oob cells : Mem Byte} (h : Written eng fmt l k oobsize buf oob cells) :
    chunks cells 512 k 0 = chunks buf 512 k 0 :=
  chunks_congr (by rw [Nat.mul_comm k 512, h.page])

-- Where the readers look for the codes they find those of the data they read.
theorem Written.gather {buf oob cells : Mem Byte} (h : Written eng fmt l k oobsize buf oob cells)
    (hroom : l.pos 0 + k * fmt.bytes ≤ oobsize) (dst : Mem Byte) :
    (dst.store 0 (cells.load (512 * k) oobsize)).load (l.pos 0) (k * fmt.bytes) =
      codes eng fmt.nand_type (chunks cells 512 k 0) := by
  have hwindow := Mem.load_store_load dst cells 0 (512 * k) oobsize (l.pos 0) (k * fmt.bytes) hroom
  rw [Nat.zero_add] at hwindow
  rw [hwindow, h.main, h.chunks_eq]

theorem read_page_mlc_eq (hmlc : fmt ≠ .bit1) (hroom : l.pos 0 + k * fmt.bytes ≤ oobsize)
    {buf oob : Mem Byte} (r : State) (ht : r.nand_type = fmt.nand_type)
    (h : Written eng fmt l k oobsize buf oob r.cells) :
    let t := read_page_mlc eng (fmt.mtd l k oobsize) 512 fmt.bytes k r
    t.buf = r.buf.store 0 (r.cells.load 0 (512 * k)) ∧ t.failed = r.failed ∧
      t.oob_poi = r.oob_poi.store 0 (r.cells.load (512 * k) oobsize) ∧
      ∃ tr, t.trace = r.trace ++ tr ∧ supplied_codes tr = page_codes eng fmt buf k := by
  intro t
  let s : State := { r with
    col := 512 * k + oobsize
    programming := false
    ecc.stream := if r.ecc.locked then r.ecc.stream
      else r.ecc.stream ++ r.cells.load (512 * k) oobsize
    oob_poi := r.oob_poi.store 0 (r.cells.load (512 * k) oobsize) }
  have hsteps := @mtd_steps fmt l k oobsize
  have hloop := decode_steps_mlc_eq eng fmt hmlc (fmt.mtd l k oobsize) 512 k 0 s ht hsteps.ge
  simp only [hsteps, Nat.sub_self, Nat.zero_mul, Nat.mul_zero, Nat.add_zero] at hloop
  rcases hloop (h.gather eng fmt hroom r.oob_poi) with ⟨col, pr, ecc, tr, heq, htr⟩
  have hdef : t = decode_steps_mlc eng (fmt.mtd l k oobsize) 512 fmt.bytes k k 0 0 s := rfl
  rw [hdef, heq, page_codes, ← h.chunks_eq]
  refine ⟨?_, rfl, rfl, tr, rfl, htr⟩
  show r.buf.store 0 (r.cells.load 0 (k * 512)) = _
  rw [Nat.mul_comm]

theorem read_page_1bit_eq (h4 : 4 ≤ oobsize) (hroom : l.pos 0 + k * 4 ≤ oobsize)
    {buf oob : Mem Byte} (r : State) (ht : r.nand_type = .slc)
    (h : Written eng .bit1 l k oobsize buf oob r.cells) :
    let t := s3c_nand_read_page_1bit eng (Format.bit1.mtd l k oobsize) r
    t.buf = r.buf.store 0 (r.cells.load 0 (512 * k)) ∧ t.failed = r.failed ∧
      t.oob_poi = r.oob_poi.store 0 (r.cells.load (512 * k) oobsize) ∧
      ∃ tr pre, t.trace = r.trace ++ tr ∧ supplied_codes tr = pre ++ page_codes eng .bit1 buf k ∧
        (pre = [] ∨ pre = spare_codes eng .bit1 k oobsize r.cells) := by
  intro t
  rcases fetch_spare_1bit_eq eng (l := l) (k := k) h4 r ht with ⟨_, _, e, _, tr, hfetch, hstream, htr⟩
  generalize hs : fetch_spare_1bit eng (Format.bit1.mtd l k oobsize) r = s at hfetch
  have hcode : s.oob_poi.load (oobsize - 4) 4 = eng.code .slc s.ecc.stream := by
    have hwindow := Mem.load_store_load r.oob_poi r.cells 0 (512 * k) oobsize (oobsize - 4) 4 (by omega)
    rw [Nat.zero_add] at hwindow
    simp only [hfetch, hwindow, hstream]
    exact h.spare rfl
  rcases check_spare_1bit_eq eng s (by rw [hfetch]; exact ht) (oobsize - 4) hcode with
    ⟨e', tr', hcheck, htr'⟩
  have hsteps := @mtd_steps .bit1 l k oobsize
  have hloop := decode_steps_1bit_eq eng (Format.bit1.mtd l k oobsize) rfl k 0 0
    { s with ecc := e', trace := s.trace ++ tr' } (by rw [hfetch]; exact ht) hsteps.ge
  simp only [hsteps, Nat.sub_self, Nat.zero_mul, Nat.mul_zero, Nat.add_zero] at hloop
  have hgather := h.gather eng .bit1 hroom r.oob_poi
  rcases hloop (by simp only [hfetch]; exact hgather) with ⟨_, _, _, _, tr'', heq, htr''⟩
  have hdef : t = decode_steps_1bit eng (Format.bit1.mtd l k oobsize) k 0 0 0
      { s with ecc := e', trace := s.trace ++ tr' } := by
    simp only [t, s3c_nand_read_page_1bit, hs, hsteps]
    rw [← hcheck]
    rfl
  have hsupplied : supplied_codes (tr ++ tr' ++ tr'') =
      supplied_codes tr' ++ page_codes eng .bit1 buf k := by
    have happend : ∀ a b : List Trace, supplied_codes (a ++ b) = supplied_codes a ++ supplied_codes b :=
      fun a b ↦ List.filterMap_append
    have hcells : s.cells = r.cells := by rw [hfetch]
    rw [happend, happend, htr, htr'', page_codes, ← h.chunks_eq, List.nil_append, hcells]
    rfl
  rw [hdef, heq]
  refine ⟨?_, ?_, ?_, tr ++ tr' ++ tr'', supplied_codes tr', ?_, hsupplied, ?_⟩
  · show s.buf.store 0 (s.cells.load 0 (k * 512)) = _
    rw [hfetch, Nat.mul_comm]
  · show s.failed = r.failed
    rw [hfetch]
  · show s.oob_poi = _
    rw [hfetch]
  · show s.trace ++ tr' ++ tr'' = _
    rw [hfetch]
    simp only [List.append_assoc]
  · have hcode' : s.ecc.stream = r.cells.load (512 * k) (oobsize - 4) := by rw [hfetch, hstream]
    rw [hcode'] at htr'
    exact htr'

/-- What reading a written page returns. -/
theorem read_page_written (hroom : l.pos 0 + k * fmt.bytes ≤ oobsize - fmt.spare_bytes)
    (hspare : fmt.spare_bytes ≤ oobsize) {buf oob : Mem Byte} (r : State)
    (ht : r.nand_type = fmt.nand_type) (h : Written eng fmt l k oobsize buf oob r.cells) :
    let t := fmt.read_page eng (fmt.mtd l k oobsize) (cmdfunc r .read0 0)
    t.buf = r.buf.store 0 (r.cells.load 0 (512 * k)) ∧ t.failed = r.failed ∧
      t.oob_poi = r.oob_poi.store 0 (r.cells.load (512 * k) oobsize) ∧
      ∃ tr pre, t.trace = r.trace ++ tr ∧ supplied_codes tr = pre ++ page_codes eng fmt buf k ∧
        (pre = [] ∨ pre = spare_codes eng fmt k oobsize r.cells) := by
  have hsteps : 512 * k / 512 = k := Nat.mul_div_cancel_left k (by decide)
  cases fmt with
  | bit1 =>
    change l.pos 0 + k * 4 ≤ oobsize - 4 at hroom
    exact read_page_1bit_eq eng hspare (by omega) (cmdfunc r .read0 0) ht h
  | bit4 =>
    rcases read_page_mlc_eq eng .bit4 (by decide) hroom (cmdfunc r .read0 0) ht h with
      ⟨hbuf, hfailed, hoob, tr, htr, hcodes⟩
    simp only [Format.read_page, s3c_nand_read_page_4bit, Format.mtd, nand_scan_tail, hsteps,
      Format.bytes] at hbuf hfailed hoob htr ⊢
    exact ⟨hbuf, hfailed, hoob, tr, [], htr, hcodes, Or.inl rfl⟩
  | bit8 =>
    rcases read_page_mlc_eq eng .bit8 (by decide) hroom (cmdfunc r .read0 0) ht h with
      ⟨hbuf, hfailed, hoob, tr, htr, hcodes⟩
    simp only [Format.read_page, s3c_nand_read_page_8bit, Format.mtd, nand_scan_tail, hsteps,
      Format.bytes] at hbuf hfailed hoob htr ⊢
    exact ⟨hbuf, hfailed, hoob, tr, [], htr, hcodes, Or.inl rfl⟩

end Pages

theorem mem_layouts {fmt : Format} {l : Layout} (h : l ∈ fmt.layouts) :
    l ∈ layouts_1bit ++ layouts_4bit ++ layouts_8bit := by
  cases fmt with
  | bit1 => exact List.mem_append_left _ (List.mem_append_left _ h)
  | bit4 => exact List.mem_append_left _ (List.mem_append_right _ h)
  | bit8 => exact List.mem_append_right _ h

/-- For each format, layout and page size whose codes fit the layout: what `read_page` finds in the chip
after `write_page` is the data written, with no failure counted; the engine is handed at each step
the code computed for that step, besides the code of the OOB area for one bit; and the OOB bytes
outside the ECC positions are those written. -/
theorem nand_page_round_trip (eng : EccEngine) (fmt : Format) {l : Layout} (hl : l ∈ fmt.layouts)
    {k oobsize : Nat} (hfit : k * fmt.bytes ≤ l.eccbytes)
    (hin : ∀ i < l.eccbytes, l.pos i < oobsize - fmt.spare_bytes) (s r : State)
    (hs : s.nand_type = fmt.nand_type) (hr : r.nand_type = fmt.nand_type)
    (hcells : r.cells = (fmt.write_page eng (fmt.mtd l k oobsize) (cmdfunc s .seqin 0)).cells) :
    let w := fmt.write_page eng (fmt.mtd l k oobsize) (cmdfunc s .seqin 0)
    let t := fmt.read_page eng (fmt.mtd l k oobsize) (cmdfunc r .read0 0)
    t.buf.load 0 (512 * k) = s.buf.load 0 (512 * k) ∧ t.failed = r.failed ∧
      (∃ codes spare pre written read, codes.length = k ∧
        w.trace = s.trace ++ written ∧ computed_codes written = codes ++ spare ∧
        t.trace = r.trace ++ read ∧ supplied_codes read = pre ++ codes ∧
        (pre = [] ∨ pre = spare) ∧ (fmt ≠ .bit1 → spare = [])) ∧
      ∀ x < oobsize - fmt.spare_bytes, (∀ i < k * fmt.bytes, x ≠ l.pos i) →
        t.oob_poi x = s.oob_poi x := by
  have hc := contiguous_of_mem (mem_layouts hl)
  have hpos := eccbytes_pos_of_mem (mem_layouts hl)
  have hlast := hin (l.eccbytes - 1) (by omega)
  rw [hc.pos_eq (by omega)] at hlast
  have hroom : l.pos 0 + k * fmt.bytes ≤ oobsize - fmt.spare_bytes := by omega
  have hspare : fmt.spare_bytes ≤ oobsize := by omega
  rcases write_page_written eng fmt hc hfit hroom hspare s hs with ⟨hw, wtr, hwtr, hcomputed⟩
  rw [← hcells] at hw hcomputed
  rcases read_page_written eng fmt hroom hspare r hr hw with
    ⟨hbuf, hfailed, hoob, rtr, pre, hrtr, hsupplied, hpre⟩
  refine ⟨?_, hfailed, ⟨page_codes eng fmt s.buf k, spare_codes eng fmt k oobsize r.cells, pre, wtr,
    rtr, ?_, hwtr, hcomputed, hrtr, hsupplied, hpre, fun h ↦ if_neg h⟩, ?_⟩
  · rw [hbuf, Mem.load_store_same_of_eq _ _ _ _ (Mem.load_length ..), hw.page]
  · rw [page_codes, List.length_map, chunks_length]
  · intro x hx hout
    have hwindow := Mem.store_load_inside r.oob_poi r.cells 0 (512 * k) oobsize x (by omega)
    rw [Nat.zero_add] at hwindow
    rw [hoob, hwindow]
    refine hw.kept x hx ?_
    by_contra hcon
    have hi : x - l.pos 0 < k * fmt.bytes := by omega
    have hx' := hc.pos_eq (i := x - l.pos 0) (by omega)
    exact hout _ hi (by omega)

-- An engine whose code is a checksum; any other code is reported as uncorrectable.
def checksum_engine : EccEngine where
  encode := fun _ stream i ↦ stream.foldl (fun w b ↦ 31 * w + b.setWidth 32) (BitVec.ofNat 32 i)
  status := fun t stream supplied ↦
    if supplied = ecc_code t fun i ↦ stream.foldl (fun w b ↦ 31 * w + b.setWidth 32) (BitVec.ofNat 32 i)
    then ⟨0, 0, 0, 0, 0, 0, 0, 0⟩
    else ⟨(5 <<< 26) ||| 2, 0, 0, 9 <<< 25, 0, 0, 0, 0⟩
  accepts := by
    intro t stream
    rw [if_pos rfl]
    cases t <;> rfl

-- An 8-bit chip with these contents, and cleared buffers.
def booted (cells : Mem Byte) : State where
  cells := cells
  col := 0
  programming := false
  ecc := ⟨.read, [], [], false, 0, 0⟩
  nand_type := .mlc8
  buf := fun _ ↦ 0
  oob_poi := fun _ ↦ 0
  ecccalc := fun _ ↦ 0
  failed := 0
  trace := []

theorem booted_cells (cells : Mem Byte) : (booted cells).cells = cells := rfl

-- A page of 4096 bytes with 128 OOB bytes.
theorem nand_page_round_trip_4k :
    let s := { booted (fun _ ↦ 0xff) with buf := fun i ↦ BitVec.ofNat 8 i }
    let mtd := Format.bit8.mtd s3c_nand_oob_mlc_128_8bit 8 128
    let w := Format.bit8.write_page checksum_engine mtd (cmdfunc s .seqin 0)
    let t := Format.bit8.read_page checksum_engine mtd (cmdfunc (booted w.cells) .read0 0)
    t.buf.load 0 (512 * 8) = s.buf.load 0 (512 * 8) := by
  intro s mtd w t
  have hl : s3c_nand_oob_mlc_128_8bit ∈ Format.bit8.layouts := List.mem_cons_self
  have hin : ∀ i < s3c_nand_oob_mlc_128_8bit.eccbytes, s3c_nand_oob_mlc_128_8bit.pos i < 128 := by
    decide +kernel
  have h := @nand_page_round_trip checksum_engine .bit8 _ hl 8 128 (by decide) hin s
    (booted w.cells) rfl rfl (booted_cells w.cells)
  exact h.1

end OK210Drivers.Nand
