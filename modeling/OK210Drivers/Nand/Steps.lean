import OK210Drivers.Nand.Pages

/-!
# The ECC steps of a page

What the loops of the writers and the readers over the main area do.  The writers scatter the codes of
the steps through the `eccpos` table, the readers gather them as one run from `eccpos[0]` on; both are
the same windows of the OOB area when the table is contiguous and all codes have one length.
-/

open Library

namespace OK210Drivers.Nand

/-- The `n` pieces of `size` bytes from offset `p` on. -/
def chunks (m : Mem Byte) (size : Nat) : Nat → Nat → List (List Byte)
  | 0, _ => []
  | n + 1, p => m.load p size :: chunks m size n (p + size)

theorem chunks_length (m : Mem Byte) (size n p : Nat) : (chunks m size n p).length = n := by
  induction n generalizing p with
  | zero => rfl
  | succ n ih => rw [chunks, List.length_cons, ih]

theorem chunks_congr {m m' : Mem Byte} {size n p p' : Nat}
    (h : m.load p (n * size) = m'.load p' (n * size)) :
    chunks m size n p = chunks m' size n p' := by
  induction n generalizing p p' with
  | zero => rfl
  | succ n ih =>
    rw [Nat.succ_mul, Nat.add_comm, Mem.load_add, Mem.load_add] at h
    have hsplit := List.append_inj h (by rw [Mem.load_length, Mem.load_length])
    rw [chunks, chunks, hsplit.1, ih hsplit.2]

/-- The codes of the pieces, one after the other. -/
def codes (eng : EccEngine) (t : NandType) (pieces : List (List Byte)) : List Byte :=
  pieces.flatMap (eng.code t)

def Trace.computed? : Trace → Option (List Byte)
  | .computed code => some code
  | .supplied _ => none

def Trace.supplied? : Trace → Option (List Byte)
  | .computed _ => none
  | .supplied code => some code

/-- The codes that the engine computed, and those that it was handed to compare with. -/
def computed_codes (tr : List Trace) : List (List Byte) := tr.filterMap Trace.computed?
def supplied_codes (tr : List Trace) : List (List Byte) := tr.filterMap Trace.supplied?

theorem code_length (eng : EccEngine) (fmt : Format) (piece : List Byte) :
    (eng.code fmt.nand_type piece).length = fmt.bytes := by
  cases fmt <;> rfl

theorem codes_length (eng : EccEngine) (fmt : Format) (pieces : List (List Byte)) :
    (codes eng fmt.nand_type pieces).length = pieces.length * fmt.bytes := by
  induction pieces with
  | nil => simp [codes]
  | cons c cs ih =>
    rw [codes, List.flatMap_cons, List.length_append, code_length]
    change fmt.bytes + (codes eng fmt.nand_type cs).length = _
    rw [ih, List.length_cons, Nat.succ_mul, Nat.add_comm]

/-! ## Scattering and gathering -/

theorem scatter_contiguous {pos : Nat → Nat} {n q : Nat} (hpos : ∀ i < n, pos i = q + i)
    (src dst : Mem Byte) : scatter pos src n dst = dst.store q (src.load 0 n) := by
  induction n with
  | zero => rw [Mem.load_zero, Mem.store_nil]; rfl
  | succ n ih =>
    have hlast : scatter pos src (n + 1) dst =
        Function.update (scatter pos src n dst) (pos n) (src n) := by
      simp only [scatter, List.range_succ, List.foldl_append, List.foldl_cons, List.foldl_nil]
    have hone : ∀ (m : Mem Byte) (a : Nat) (v : Byte), Function.update m a v = m.store a [v] := by
      intro m a v
      funext b
      by_cases hb : b = a
      · rw [hb, Function.update_self]
        exact (Mem.store_inside m a 0 [v] (by simp)).symm
      · rw [Function.update_of_ne hb, Mem.store_outside m a b [v] (by simp; omega)]
    have hload : src.load 0 (n + 1) = src.load 0 n ++ [src n] := by
      rw [Mem.load_add, Nat.zero_add]
      rfl
    have hq : q + n = q + (src.load 0 n).length := by rw [Mem.load_length]
    rw [hlast, ih fun i hi ↦ hpos i (by omega), hpos n (by omega), hone, hload, hq,
      Mem.store_store_adjacent]

/-! ## What the engine is handed and reports -/

theorem byteOf_packed (a b : Byte) :
    byteOf ((a.setWidth 32 <<< 16) ||| b.setWidth 32) 0 = b ∧
      byteOf ((a.setWidth 32 <<< 16) ||| b.setWidth 32) 2 = a := by
  constructor
  · ext i hi
    simp [byteOf]
  · ext i hi
    have hhigh : b.getLsbD (16 + i) = false := BitVec.getLsbD_of_ge b (16 + i) (by omega)
    have hlow : a.getLsbD i = a[i] := BitVec.getLsbD_eq_getElem hi
    simp [byteOf, hhigh, hlow, show 16 + i < 32 by omega, show i < 32 by omega]

/-- Without a reported error the data is left alone. -/
theorem correct_of_no_error {t : NandType} (ht : t ≠ .unknown) {r : ErrorRegs} (h : err_type t r = 0)
    (dat : Mem Byte) (p : Nat) : correct t r dat p = (0, dat) := by
  cases t with
  | unknown => exact absurd rfl ht
  | slc => simp [correct, h]
  | mlc4 => simp [correct, h]
  | mlc8 => simp [correct, h]

/-! ## The loops over the main area -/

section Loops

variable (eng : EccEngine) (fmt : Format)

/-- The writers' loop streams the page to the chip and leaves the codes of its pieces in `ecccalc`. -/
theorem encode_steps_eq (size n i p : Nat) (s : State) (ht : s.nand_type = fmt.nand_type)
    (hp : s.programming = true) :
    ∃ ecc tr, encode_steps eng size fmt.bytes n i p s = { s with
        cells := s.cells.store s.col (s.buf.load p (n * size))
        col := s.col + n * size
        ecc := ecc
        ecccalc := s.ecccalc.store i (codes eng fmt.nand_type (chunks s.buf size n p))
        trace := s.trace ++ tr } ∧
      computed_codes tr = (chunks s.buf size n p).map (eng.code fmt.nand_type) := by
  induction n generalizing i p s with
  | zero =>
    refine ⟨s.ecc, [], ?_, rfl⟩
    simp [encode_steps, chunks, codes]
  | succ n ih =>
    let piece := s.buf.load p size
    let code := eng.code fmt.nand_type piece
    let s' : State := { s with
      cells := s.cells.store s.col piece
      col := s.col + size
      ecc := { s.ecc with mode := .write, stream := piece, supplied := [], locked := true }
      ecccalc := s.ecccalc.store i code
      trace := s.trace ++ [.computed code] }
    have hstep : encode_steps eng size fmt.bytes (n + 1) i p s =
        encode_steps eng size fmt.bytes n (i + fmt.bytes) (p + size) s' := by
      simp [encode_steps, s3c_nand_enable_hwecc, write_buf, s3c_nand_calculate_ecc, hp, ht, s', code,
        piece]
    rcases ih (i + fmt.bytes) (p + size) s' ht hp with ⟨ecc, tr, heq, htr⟩
    refine ⟨ecc, .computed code :: tr, ?_, ?_⟩
    · have hcells : (s.cells.store s.col piece).store (s.col + size) (s.buf.load (p + size) (n * size)) =
          s.cells.store s.col (s.buf.load p ((n + 1) * size)) := by
        rw [Mem.store_load_adjacent, Nat.succ_mul, Nat.add_comm]
      have hcalc : (s.ecccalc.store i code).store (i + fmt.bytes)
          (codes eng fmt.nand_type (chunks s.buf size n (p + size))) =
          s.ecccalc.store i (codes eng fmt.nand_type (chunks s.buf size (n + 1) p)) := by
        have hlen : i + fmt.bytes = i + code.length := by rw [code_length]
        rw [hlen, Mem.store_store_adjacent]
        rfl
      have hcol : s.col + size + n * size = s.col + (n + 1) * size := by
        rw [Nat.succ_mul]
        omega
      rw [hstep, heq]
      simp only [s', hcells, hcalc, hcol, List.append_assoc, List.singleton_append]
    · rw [chunks, List.map_cons, ← htr]
      rfl

-- The first code of a run, and the run behind it.
theorem gather_step {oob cells : Mem Byte} {size n q c : Nat}
    (h : oob.load q ((n + 1) * fmt.bytes) = codes eng fmt.nand_type (chunks cells size (n + 1) c)) :
    oob.load q fmt.bytes = eng.code fmt.nand_type (cells.load c size) ∧
      oob.load (q + fmt.bytes) (n * fmt.bytes) =
        codes eng fmt.nand_type (chunks cells size n (c + size)) := by
  rw [Nat.succ_mul, Nat.add_comm, Mem.load_add, chunks, codes, List.flatMap_cons] at h
  exact List.append_inj h (by rw [Mem.load_length, code_length])

-- `accepts` for the code that `calculate` returned for the same bytes.
theorem status_no_error (t : NandType) (piece : List Byte) :
    err_type t (eng.status t piece (eng.code t piece)) = 0 := eng.accepts t piece

theorem nand_type_ne_unknown : fmt.nand_type ≠ .unknown := by
  cases fmt <;> decide

theorem decode_step_mlc_eq (hmlc : fmt ≠ .bit1) (size ecc p col : Nat) (s : State)
    (ht : s.nand_type = fmt.nand_type)
    (hoob : s.oob_poi.load ecc fmt.bytes = eng.code fmt.nand_type (s.cells.load col size)) :
    decode_step_mlc eng size fmt.bytes ecc p col s = { s with
      col := col + size
      programming := false
      ecc := { s.ecc with
        mode := .read
        stream := s.cells.load col size
        supplied := eng.code fmt.nand_type (s.cells.load col size)
        locked := true }
      buf := s.buf.store p (s.cells.load col size)
      trace := s.trace ++ [.supplied (eng.code fmt.nand_type (s.cells.load col size))] } := by
  have hslc : fmt.nand_type ≠ .slc := by
    cases fmt with
    | bit1 => exact absurd rfl hmlc
    | bit4 => decide
    | bit8 => decide
  have hok := correct_of_no_error (nand_type_ne_unknown fmt)
    (status_no_error eng fmt.nand_type (s.cells.load col size)) (s.buf.store p (s.cells.load col size)) p
  simp [decode_step_mlc, cmdfunc, s3c_nand_enable_hwecc, read_buf, write_buf, s3c_nand_calculate_ecc,
    s3c_nand_correct_data, write_eccdata, handed_code, count_failure, ht, hslc, hoob, hok]

/-- The MLC readers' loop, `eccsteps` turns before its end: when the codes it gathers are those of the
pieces it reads, the pieces arrive unchanged, no failure is counted and the engine is handed these
codes. -/
theorem decode_steps_mlc_eq (hmlc : fmt ≠ .bit1) (mtd : Mtd) (size eccsteps p : Nat) (s : State)
    (ht : s.nand_type = fmt.nand_type) (hn : eccsteps ≤ mtd.ecc.steps)
    (hoob : s.oob_poi.load (mtd.ecc.layout.pos 0 + (mtd.ecc.steps - eccsteps) * fmt.bytes)
        (eccsteps * fmt.bytes) =
      codes eng fmt.nand_type (chunks s.cells size eccsteps (size * (mtd.ecc.steps - eccsteps)))) :
    ∃ col programming ecc tr,
      decode_steps_mlc eng mtd size fmt.bytes mtd.ecc.steps eccsteps p
          (size * (mtd.ecc.steps - eccsteps)) s = { s with
        col := col
        programming := programming
        ecc := ecc
        buf := s.buf.store p (s.cells.load (size * (mtd.ecc.steps - eccsteps)) (eccsteps * size))
        trace := s.trace ++ tr } ∧
      supplied_codes tr =
        (chunks s.cells size eccsteps (size * (mtd.ecc.steps - eccsteps))).map
          (eng.code fmt.nand_type) := by
  induction eccsteps generalizing p s with
  | zero =>
    refine ⟨s.col, s.programming, s.ecc, [], ?_, rfl⟩
    simp [decode_steps_mlc]
  | succ n ih =>
    rcases gather_step eng fmt hoob with ⟨hfirst, hrest⟩
    have hnext : mtd.ecc.steps - n = mtd.ecc.steps - (n + 1) + 1 := by omega
    have hstep := decode_step_mlc_eq eng fmt hmlc size _ p _ s ht hfirst
    rw [decode_steps_mlc, show mtd.ecc.steps + 1 - (n + 1) = mtd.ecc.steps - n by omega]
    have hc : size * (mtd.ecc.steps - n) = size * (mtd.ecc.steps - (n + 1)) + size := by
      rw [hnext, Nat.mul_succ]
    have hq : mtd.ecc.layout.pos 0 + (mtd.ecc.steps - n) * fmt.bytes =
        mtd.ecc.layout.pos 0 + (mtd.ecc.steps - (n + 1)) * fmt.bytes + fmt.bytes := by
      rw [hnext, Nat.succ_mul, Nat.add_assoc]
    rw [← hc, ← hq] at hrest
    generalize decode_step_mlc eng size fmt.bytes _ p _ s = s' at hstep ⊢
    rcases ih (p + size) s' (by rw [hstep]; exact ht) (by omega) (by rw [hstep]; exact hrest) with
      ⟨col, pr, ecc, tr, heq, htr⟩
    rw [heq, hstep]
    rw [hstep] at htr
    generalize size * (mtd.ecc.steps - (n + 1)) = c at *
    refine ⟨col, pr, ecc, .supplied (eng.code fmt.nand_type (s.cells.load c size)) :: tr, ?_, ?_⟩
    · have hbuf : (s.buf.store p (s.cells.load c size)).store (p + size)
          (s.cells.load (c + size) (n * size)) = s.buf.store p (s.cells.load c ((n + 1) * size)) := by
        rw [Mem.store_load_adjacent, Nat.succ_mul, Nat.add_comm]
      simp only [hc, hbuf, List.append_assoc, List.singleton_append]
    · rw [chunks, List.map_cons, ← hc, ← htr]
      rfl

-- SLC packs the code into two registers, and what the engine finds there are the same four bytes.
theorem eccdata_code_write (s : State) (hslc : s.nand_type = .slc) (read_ecc : Nat → Byte) :
    handed_code (write_eccdata s read_ecc) = [read_ecc 0, read_ecc 1, read_ecc 2, read_ecc 3] := by
  have h0 := byteOf_packed (read_ecc 1) (read_ecc 0)
  have h1 := byteOf_packed (read_ecc 3) (read_ecc 2)
  simp only [handed_code, write_eccdata, hslc, if_true, eccdata_code, h0.1, h0.2, h1.1, h1.2]

theorem load_four (m : Mem Byte) (q : Nat) :
    m.load q 4 = [m (q + 0), m (q + 1), m (q + 2), m (q + 3)] := rfl

/-- `correct` for SLC when the four bytes it is given are the code of what was streamed. -/
theorem correct_data_slc_eq (s : State) (hslc : s.nand_type = .slc) (dat oob : Mem Byte) (p q : Nat)
    (hcode : oob.load q 4 = eng.code .slc s.ecc.stream) :
    ∃ ecc, s3c_nand_correct_data eng s dat (some p) (fun j ↦ oob (q + j)) =
      (0, dat, { s with
        ecc := ecc
        trace := s.trace ++ [.supplied (eng.code .slc s.ecc.stream)] }) := by
  have hh := eccdata_code_write s hslc fun j ↦ oob (q + j)
  rw [← load_four, hcode] at hh
  have ht : (write_eccdata s fun j ↦ oob (q + j)).nand_type = .slc := by
    simp only [write_eccdata, hslc, if_true]
  have hstream : (write_eccdata s fun j ↦ oob (q + j)).ecc.stream = s.ecc.stream := by
    simp only [write_eccdata, hslc, if_true]
  have hok := correct_of_no_error (t := .slc) (by decide) (status_no_error eng .slc s.ecc.stream) dat p
  refine ⟨(write_eccdata s fun j ↦ oob (q + j)).ecc, ?_⟩
  simp only [s3c_nand_correct_data, hh, ht, hstream, hok]
  simp only [write_eccdata, hslc, if_true]

theorem decode_step_1bit_eq (size ecc i p col : Nat) (s : State) (hslc : s.nand_type = .slc)
    (hoob : s.oob_poi.load ecc 4 = eng.code .slc (s.cells.load col size)) :
    ∃ e, decode_step_1bit eng size ecc i p col s = { s with
      col := col + size
      programming := false
      ecc := e
      buf := s.buf.store p (s.cells.load col size)
      ecccalc := s.ecccalc.store i (eng.code .slc (s.cells.load col size))
      trace := s.trace ++ [.computed (eng.code .slc (s.cells.load col size)),
        .supplied (eng.code .slc (s.cells.load col size))] } := by
  let piece := s.cells.load col size
  let s' : State := { s with
    col := col + size
    programming := false
    ecc := { s.ecc with mode := .read, stream := piece, supplied := [], locked := true }
    buf := s.buf.store p piece
    ecccalc := s.ecccalc.store i (eng.code .slc piece)
    trace := s.trace ++ [.computed (eng.code .slc piece)] }
  rcases correct_data_slc_eq eng s' hslc (s.buf.store p piece) s.oob_poi p ecc hoob with ⟨e, he⟩
  refine ⟨e, ?_⟩
  have hbody : decode_step_1bit eng size ecc i p col s =
      (let r := s3c_nand_correct_data eng s' s'.buf (some p) fun j ↦ s'.oob_poi (ecc + j)
       count_failure { r.2.2 with buf := r.2.1 } r.1) := by
    simp [decode_step_1bit, cmdfunc, s3c_nand_enable_hwecc, read_buf, s3c_nand_calculate_ecc, hslc, s',
      piece]
  rw [hbody, he]
  simp [count_failure, s', piece]

theorem decode_steps_1bit_eq (mtd : Mtd) (hbytes : mtd.ecc.bytes = 4) (eccsteps i p : Nat) (s : State)
    (hslc : s.nand_type = .slc) (hn : eccsteps ≤ mtd.ecc.steps)
    (hoob : s.oob_poi.load (mtd.ecc.layout.pos 0 + (mtd.ecc.steps - eccsteps) * 4) (eccsteps * 4) =
      codes eng .slc (chunks s.cells mtd.ecc.size eccsteps
        (mtd.ecc.size * (mtd.ecc.steps - eccsteps)))) :
    ∃ col programming ecc ecccalc tr,
      decode_steps_1bit eng mtd eccsteps i p (mtd.ecc.size * (mtd.ecc.steps - eccsteps)) s = { s with
        col := col
        programming := programming
        ecc := ecc
        buf := s.buf.store p (s.cells.load (mtd.ecc.size * (mtd.ecc.steps - eccsteps))
          (eccsteps * mtd.ecc.size))
        ecccalc := ecccalc
        trace := s.trace ++ tr } ∧
      supplied_codes tr = (chunks s.cells mtd.ecc.size eccsteps
        (mtd.ecc.size * (mtd.ecc.steps - eccsteps))).map (eng.code .slc) := by
  induction eccsteps generalizing i p s with
  | zero =>
    refine ⟨s.col, s.programming, s.ecc, s.ecccalc, [], ?_, rfl⟩
    simp [decode_steps_1bit]
  | succ n ih =>
    rcases gather_step eng .bit1 hoob with ⟨hfirst, hrest⟩
    have hnext : mtd.ecc.steps - n = mtd.ecc.steps - (n + 1) + 1 := by omega
    rcases decode_step_1bit_eq eng mtd.ecc.size _ i p _ s hslc hfirst with ⟨e, hstep⟩
    rw [decode_steps_1bit, show mtd.ecc.steps + 1 - (n + 1) = mtd.ecc.steps - n by omega]
    simp only [hbytes]
    have hc : mtd.ecc.size * (mtd.ecc.steps - n) =
        mtd.ecc.size * (mtd.ecc.steps - (n + 1)) + mtd.ecc.size := by
      rw [hnext, Nat.mul_succ]
    have hq : mtd.ecc.layout.pos 0 + (mtd.ecc.steps - n) * 4 =
        mtd.ecc.layout.pos 0 + (mtd.ecc.steps - (n + 1)) * 4 + 4 := by
      rw [hnext, Nat.succ_mul, Nat.add_assoc]
    change s.oob_poi.load (_ + 4) (n * 4) = codes eng .slc _ at hrest
    rw [← hc, ← hq] at hrest
    generalize decode_step_1bit eng mtd.ecc.size _ i p _ s = s' at hstep ⊢
    rcases ih (i + 4) (p + mtd.ecc.size) s' (by rw [hstep]; exact hslc) (by omega)
        (by rw [hstep]; exact hrest) with ⟨col, pr, ecc, calc', tr, heq, htr⟩
    rw [heq, hstep]
    rw [hstep] at htr
    generalize mtd.ecc.size * (mtd.ecc.steps - (n + 1)) = c at *
    refine ⟨col, pr, ecc, calc', .computed (eng.code .slc (s.cells.load c mtd.ecc.size)) ::
      .supplied (eng.code .slc (s.cells.load c mtd.ecc.size)) :: tr, ?_, ?_⟩
    · have hbuf : (s.buf.store p (s.cells.load c mtd.ecc.size)).store (p + mtd.ecc.size)
          (s.cells.load (c + mtd.ecc.size) (n * mtd.ecc.size)) =
          s.buf.store p (s.cells.load c ((n + 1) * mtd.ecc.size)) := by
        rw [Mem.store_load_adjacent, Nat.succ_mul, Nat.add_comm]
      simp only [hc, hbuf, List.append_assoc, List.cons_append, List.nil_append]
    · rw [chunks, List.map_cons, ← hc, ← htr]
      rfl

end Loops

end OK210Drivers.Nand
