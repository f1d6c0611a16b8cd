import OK210Drivers.Library.Mem

/-!
# The NAND controller and its ECC engine

What the page functions of `s3c_nand.c` use of the chip and the controller.  The chip keeps the bytes of
one page, main area first and OOB area behind it.  The ECC engine is a parameter: it turns the bytes
streamed since it was initialised into the contents of its code registers, and the streamed bytes
together with the code it is handed into the contents of its error registers.
-/

open Library

namespace OK210Drivers.Nand

abbrev Byte := BitVec 8
abbrev Word := BitVec 32

/-- `nand_type`. -/
inductive NandType
  | unknown
  | slc
  | mlc4
  | mlc8
  deriving DecidableEq

/-- `cur_ecc_mode`: `NAND_ECC_READ` or `NAND_ECC_WRITE`. -/
inductive EccMode
  | read
  | write
  deriving DecidableEq

/-- The registers `s3c_nand_correct_data` reads. -/
structure ErrorRegs where
  nfmeccerr0 : Word
  nfmeccerr1 : Word
  nfmlcbitpt : Word
  nf8eccerr0 : Word
  nf8eccerr1 : Word
  nf8eccerr2 : Word
  nfmlc8bitpt0 : Word
  nfmlc8bitpt1 : Word

/-- Byte `k` of a register: `(w >> 8 * k) & 0xff`. -/
def byteOf (w : Word) (k : Nat) : Byte := (w >>> (8 * k)).setWidth 8

/-- The bytes that `s3c_nand_calculate_ecc` takes out of the code registers, which are `NFMECC0` and
`NFMECC1` or `NFM8ECC0` to `NFM8ECC3`. -/
def ecc_code (t : NandType) (nfmecc : Nat → Word) : List Byte :=
  match t with
  | .unknown => []
  | .slc => [byteOf (nfmecc 0) 0, byteOf (nfmecc 0) 1, byteOf (nfmecc 0) 2, byteOf (nfmecc 0) 3]
  | .mlc4 => [byteOf (nfmecc 0) 0, byteOf (nfmecc 0) 1, byteOf (nfmecc 0) 2, byteOf (nfmecc 0) 3,
      byteOf (nfmecc 1) 0, byteOf (nfmecc 1) 1, byteOf (nfmecc 1) 2, byteOf (nfmecc 1) 3]
  | .mlc8 => [byteOf (nfmecc 0) 0, byteOf (nfmecc 0) 1, byteOf (nfmecc 0) 2, byteOf (nfmecc 0) 3,
      byteOf (nfmecc 1) 0, byteOf (nfmecc 1) 1, byteOf (nfmecc 1) 2, byteOf (nfmecc 1) 3,
      byteOf (nfmecc 2) 0, byteOf (nfmecc 2) 1, byteOf (nfmecc 2) 2, byteOf (nfmecc 2) 3,
      byteOf (nfmecc 3) 0]

/-- The error type field of the status registers. -/
def err_type (t : NandType) (r : ErrorRegs) : Word :=
  match t with
  | .unknown => 0
  | .slc => r.nfmeccerr0 &&& 0x3
  | .mlc4 => (r.nfmeccerr0 >>> 26) &&& 0x7
  | .mlc8 => (r.nf8eccerr0 >>> 25) &&& 0xf

/-- The ECC engine: an arbitrary code, with no error reported for the code of what was streamed. -/
structure EccEngine where
  encode : NandType → List Byte → Nat → Word
  status : NandType → List Byte → List Byte → ErrorRegs
  accepts : ∀ t stream, err_type t (status t stream (ecc_code t (encode t stream))) = 0

/-- The code of a list of bytes. -/
def EccEngine.code (eng : EccEngine) (t : NandType) (bytes : List Byte) : List Byte :=
  ecc_code t (eng.encode t bytes)

/-- What the engine has taken in since `hwctl`: the bytes streamed to or from the chip until it was
locked, the code handed to it as data, and the registers the code is written to for SLC. -/
structure EccState where
  mode : EccMode
  stream : List Byte
  supplied : List Byte
  locked : Bool
  nfmeccdata0 : Word
  nfmeccdata1 : Word

-- What the engine computed and was handed, in order.
inductive Trace
  | computed (code : List Byte)
  | supplied (code : List Byte)
  deriving DecidableEq

/-- The chip (`cells`, the column the next byte goes to or comes from, and whether `SEQIN` was sent last),
the engine, and the memory of the driver: the caller's page buffer, `chip->oob_poi`,
`chip->buffers->ecccalc` and `mtd->ecc_stats.failed`. -/
structure State where
  cells : Mem Byte
  col : Nat
  programming : Bool
  ecc : EccState
  nand_type : NandType
  buf : Mem Byte
  oob_poi : Mem Byte
  ecccalc : Mem Byte
  failed : Nat
  trace : List Trace

/-- The commands of `nand_base.c` and of the driver. -/
inductive Cmd
  | seqin
  | read0
  | rndout
  deriving DecidableEq

def cmdfunc (s : State) (cmd : Cmd) (col : Nat) : State :=
  { s with col := col, programming := decide (cmd = .seqin) }

/-- Bytes written to the data register: they go to the chip while a page is programmed, otherwise only
to the engine, as the code of what was read. -/
def write_buf (s : State) (bytes : List Byte) : State :=
  if s.programming then
    { s with
      cells := s.cells.store s.col bytes
      col := s.col + bytes.length
      ecc.stream := if s.ecc.locked then s.ecc.stream else s.ecc.stream ++ bytes }
  else
    { s with ecc.supplied := if s.ecc.locked then s.ecc.supplied else s.ecc.supplied ++ bytes }

/-- `n` bytes read from the chip. -/
def read_buf (s : State) (n : Nat) : List Byte × State :=
  let bytes := s.cells.load s.col n
  (bytes, { s with
    col := s.col + n
    ecc.stream := if s.ecc.locked then s.ecc.stream else s.ecc.stream ++ bytes })

/-- `s3c_nand_enable_hwecc`: initialise and unlock the engine. -/
def s3c_nand_enable_hwecc (s : State) (mode : EccMode) : State :=
  { s with
    ecc.mode := mode
    ecc.stream := []
    ecc.supplied := []
    ecc.locked := false }

/-- `s3c_nand_calculate_ecc`: lock the engine; with the bytes stored to `ecc_code`, none for MLC in
read mode. -/
def s3c_nand_calculate_ecc (eng : EccEngine) (s : State) : List Byte × State :=
  let s := { s with ecc.locked := true }
  let code := eng.code s.nand_type s.ecc.stream
  if s.nand_type ≠ .slc ∧ s.ecc.mode = .read then ([], s)
  else (code, { s with trace := s.trace ++ [.computed code] })

/-- `dat[a] ^= bits`. -/
def flip (dat : Mem Byte) (a : Nat) (bits : Byte) : Mem Byte :=
  Function.update dat a (dat a ^^^ bits)

/-- `(w >> k) & 0x3ff`, the position of an error. -/
def position (w : Word) (k : Nat) : Nat := ((w >>> k) &&& 0x3ff).toNat

/-- The part of `s3c_nand_correct_data` behind the reading of the registers, for the data at offset `p`.
The cases of the switches fall through to the smaller ones. -/
def correct (t : NandType) (r : ErrorRegs) (dat : Mem Byte) (p : Nat) : Int × Mem Byte :=
  match t with
  | .unknown => (-1, dat)
  | .slc =>
    match (err_type .slc r).toNat with
    | 0 => (0, dat)
    | 1 => (1, flip dat (p + ((r.nfmeccerr0 >>> 7) &&& 0x7ff).toNat)
        (1 <<< ((r.nfmeccerr0 >>> 4) &&& 0x7).toNat))
    | _ => (-1, dat)
  | .mlc4 =>
    let fix1 := fun dat ↦ flip dat (p + position r.nfmeccerr0 0) (byteOf r.nfmlcbitpt 0)
    let fix2 := fun dat ↦ fix1 (flip dat (p + position r.nfmeccerr0 16) (byteOf r.nfmlcbitpt 1))
    let fix3 := fun dat ↦ fix2 (flip dat (p + position r.nfmeccerr1 0) (byteOf r.nfmlcbitpt 2))
    let fix4 := fun dat ↦ fix3 (flip dat (p + position r.nfmeccerr1 16) (byteOf r.nfmlcbitpt 3))
    let free_page := decide ((r.nfmeccerr0 >>> 29) &&& 0x1 ≠ 0)
    let jffs2 := decide (dat (p + 17) = 0xff ∧ dat (p + 26) = 0xff ∧ dat (p + 35) = 0xff ∧
      dat (p + 44) = 0xff ∧ dat (p + 54) = 0xff)
    match (if free_page || jffs2 then 0 else (err_type .mlc4 r).toNat) with
    | 4 => (4, fix4 dat)
    | 3 => (3, fix3 dat)
    | 2 => (2, fix2 dat)
    | 1 => (1, fix1 dat)
    | 0 => (0, dat)
    | _ => (-1, dat)
  | .mlc8 =>
    let fix1 := fun dat ↦ flip dat (p + position r.nf8eccerr0 0) (byteOf r.nfmlc8bitpt0 0)
    let fix2 := fun dat ↦ fix1 (flip dat (p + position r.nf8eccerr0 15) (byteOf r.nfmlc8bitpt0 1))
    let fix3 := fun dat ↦ fix2 (flip dat (p + position r.nf8eccerr1 0) (byteOf r.nfmlc8bitpt0 2))
    let fix4 := fun dat ↦ fix3 (flip dat (p + position r.nf8eccerr1 11) (byteOf r.nfmlc8bitpt0 3))
    let fix5 := fun dat ↦ fix4 (flip dat (p + position r.nf8eccerr1 22) (byteOf r.nfmlc8bitpt1 0))
    let fix6 := fun dat ↦ fix5 (flip dat (p + position r.nf8eccerr2 0) (byteOf r.nfmlc8bitpt1 1))
    let fix7 := fun dat ↦ fix6 (flip dat (p + position r.nf8eccerr2 11) (byteOf r.nfmlc8bitpt1 2))
    let fix8 := fun dat ↦ fix7 (flip dat (p + position r.nf8eccerr2 22) (byteOf r.nfmlc8bitpt1 3))
    let free_page := decide ((r.nf8eccerr0 >>> 29) &&& 0x1 ≠ 0)
    match (if free_page then 0 else (err_type .mlc8 r).toNat) with
    | 8 => (8, fix8 dat)
    | 7 => (7, fix7 dat)
    | 6 => (6, fix6 dat)
    | 5 => (5, fix5 dat)
    | 4 => (4, fix4 dat)
    | 3 => (3, fix3 dat)
    | 2 => (2, fix2 dat)
    | 1 => (1, fix1 dat)
    | 0 => (0, dat)
    | _ => (-1, dat)

/-- The code that SLC finds in `NFMECCDATA0` and `NFMECCDATA1`. -/
def eccdata_code (e : EccState) : List Byte :=
  [byteOf e.nfmeccdata0 0, byteOf e.nfmeccdata0 2, byteOf e.nfmeccdata1 0, byteOf e.nfmeccdata1 2]

/-- For SLC the code is handed to the engine here. -/
def write_eccdata (s : State) (read_ecc : Nat → Byte) : State :=
  if s.nand_type = .slc then
    { s with
      ecc.nfmeccdata0 := ((read_ecc 1).setWidth 32 <<< 16) ||| (read_ecc 0).setWidth 32
      ecc.nfmeccdata1 := ((read_ecc 3).setWidth 32 <<< 16) ||| (read_ecc 2).setWidth 32 }
  else s

/-- The code the engine compares with. -/
def handed_code (s : State) : List Byte :=
  if s.nand_type = .slc then eccdata_code s.ecc else s.ecc.supplied

/-- `s3c_nand_correct_data(mtd, dat, read_ecc, ..)` for `dat = buf + p`, or without data when `p` is null. -/
def s3c_nand_correct_data (eng : EccEngine) (s : State) (dat : Mem Byte) (p : Option Nat)
    (read_ecc : Nat → Byte) : Int × Mem Byte × State :=
  match p with
  | none => (-1, dat, s)
  | some p =>
    let s := write_eccdata s read_ecc
    let code := handed_code s
    let s := { s with trace := s.trace ++ [.supplied code] }
    let r := correct s.nand_type (eng.status s.nand_type s.ecc.stream code) dat p
    (r.1, r.2, s)

end OK210Drivers.Nand
