import OK210Drivers.Nand.Controller
import OK210Drivers.Nand.Layouts

/-!
# The page functions of the NAND driver

`s3c_nand_write_page_*` and `s3c_nand_read_page_*` for the three ECC formats.  The loops count `eccsteps`
down, as the source does; `i` and `p` are the offsets into `ecccalc` and the page buffer.
-/

open Library

namespace OK210Drivers.Nand

/-- `chip->ecc`, as far as the page functions read it. -/
structure Ecc where
  size : Nat
  bytes : Nat
  steps : Nat
  total : Nat
  layout : Layout

structure Mtd where
  writesize : Nat
  oobsize : Nat
  ecc : Ecc

/-- What `nand_scan` derives from the page size and the parameters that the driver has set. -/
def nand_scan_tail (writesize oobsize size bytes : Nat) (layout : Layout) : Mtd where
  writesize := writesize
  oobsize := oobsize
  ecc := {
    size := size
    bytes := bytes
    steps := writesize / size
    total := writesize / size * bytes
    layout := layout }

/-- `for (i = 0; i < n; i++) dst[pos[i]] = src[i]`. -/
def scatter (pos : Nat → Nat) (src : Mem Byte) (n : Nat) (dst : Mem Byte) : Mem Byte :=
  (List.range n).foldl (fun dst i ↦ Function.update dst (pos i) (src i)) dst

/-- The loop of the writers over the main area. -/
def encode_steps (eng : EccEngine) (eccsize eccbytes : Nat) :
    (eccsteps i p : Nat) → State → State
  | 0, _, _, s => s
  | eccsteps + 1, i, p, s =>
    let s := s3c_nand_enable_hwecc s .write
    let s := write_buf s (s.buf.load p eccsize)
    let (code, s) := s3c_nand_calculate_ecc eng s
    let s := { s with ecccalc := s.ecccalc.store i code }
    encode_steps eng eccsize eccbytes eccsteps (i + eccbytes) (p + eccsize) s

/-- Count a step whose data could not be corrected. -/
def count_failure (s : State) (stat : Int) : State :=
  if stat = -1 then { s with failed := s.failed + 1 } else s

/-- One turn of the loop of `s3c_nand_read_page_1bit`, with the code to compare with at offset `ecc` of
the OOB area. -/
def decode_step_1bit (eng : EccEngine) (eccsize ecc i p col : Nat) (s : State) : State :=
  let s := cmdfunc s .rndout col
  let s := s3c_nand_enable_hwecc s .read
  let (bytes, s) := read_buf s eccsize
  let s := { s with buf := s.buf.store p bytes }
  let (code, s) := s3c_nand_calculate_ecc eng s
  let s := { s with ecccalc := s.ecccalc.store i code }
  let (stat, buf, s) := s3c_nand_correct_data eng s s.buf (some p) fun j ↦ s.oob_poi (ecc + j)
  count_failure { s with buf := buf } stat

/-- The loop of `s3c_nand_read_page_1bit` over the main area. -/
def decode_steps_1bit (eng : EccEngine) (mtd : Mtd) : (eccsteps i p col : Nat) → State → State
  | 0, _, _, _, s => s
  | eccsteps + 1, i, p, col, s =>
    let ecc := mtd.ecc.layout.pos 0 + (mtd.ecc.steps - (eccsteps + 1)) * mtd.ecc.bytes
    let s := decode_step_1bit eng mtd.ecc.size ecc i p col s
    decode_steps_1bit eng mtd eccsteps (i + mtd.ecc.bytes) (p + mtd.ecc.size)
      (mtd.ecc.size * (mtd.ecc.steps + 1 - (eccsteps + 1))) s

/-- One turn of the loop of the MLC readers, which hand the code at offset `ecc` to the engine as data. -/
def decode_step_mlc (eng : EccEngine) (eccsize eccbytes ecc p col : Nat) (s : State) : State :=
  let s := cmdfunc s .rndout col
  let s := s3c_nand_enable_hwecc s .read
  let (bytes, s) := read_buf s eccsize
  let s := { s with buf := s.buf.store p bytes }
  let s := write_buf s (s.oob_poi.load ecc eccbytes)
  let (_, s) := s3c_nand_calculate_ecc eng s
  let (stat, buf, s) := s3c_nand_correct_data eng s s.buf (some p) fun _ ↦ 0
  count_failure { s with buf := buf } stat

/-- The loop of the MLC readers over the main area.  The place of the code is found with `chip->ecc.steps`,
the column with `steps`. -/
def decode_steps_mlc (eng : EccEngine) (mtd : Mtd) (eccsize eccbytes steps : Nat) :
    (eccsteps p col : Nat) → State → State
  | 0, _, _, s => s
  | eccsteps + 1, p, col, s =>
    let ecc := mtd.ecc.layout.pos 0 + (mtd.ecc.steps - (eccsteps + 1)) * eccbytes
    let s := decode_step_mlc eng eccsize eccbytes ecc p col s
    decode_steps_mlc eng mtd eccsize eccbytes steps eccsteps (p + eccsize)
      (eccsize * (steps + 1 - (eccsteps + 1))) s

/-! ## One bit -/

/-- The spare area of `s3c_nand_write_page_1bit`. -/
def write_spare_1bit (eng : EccEngine) (mtd : Mtd) (s : State) : State :=
  let eccbytes := mtd.ecc.bytes
  let secc_start := mtd.oobsize - eccbytes
  let s := s3c_nand_enable_hwecc s .write
  let s := write_buf s (s.oob_poi.load 0 secc_start)
  let (code, s) := s3c_nand_calculate_ecc eng s
  let s := { s with ecccalc := s.ecccalc.store mtd.ecc.total code }
  let s := { s with
    oob_poi := scatter (fun i ↦ secc_start + i) (fun i ↦ s.ecccalc (mtd.ecc.total + i)) eccbytes
      s.oob_poi }
  write_buf s (s.oob_poi.load secc_start eccbytes)

def s3c_nand_write_page_1bit (eng : EccEngine) (mtd : Mtd) (s : State) : State :=
  let s := encode_steps eng mtd.ecc.size mtd.ecc.bytes mtd.ecc.steps 0 0 s
  let s := { s with oob_poi := scatter mtd.ecc.layout.pos s.ecccalc mtd.ecc.total s.oob_poi }
  write_spare_1bit eng mtd s

/-- The OOB area as `s3c_nand_read_page_1bit` reads it. -/
def fetch_spare_1bit (eng : EccEngine) (mtd : Mtd) (s : State) : State :=
  let eccbytes := mtd.ecc.bytes
  let secc_start := mtd.oobsize - eccbytes
  let s := cmdfunc s .rndout mtd.writesize
  let s := s3c_nand_enable_hwecc s .read
  let (bytes, s) := read_buf s secc_start
  let s := { s with oob_poi := s.oob_poi.store 0 bytes }
  let (code, s) := s3c_nand_calculate_ecc eng s
  let s := { s with ecccalc := s.ecccalc.store mtd.ecc.total code }
  let (bytes, s) := read_buf s eccbytes
  { s with oob_poi := s.oob_poi.store secc_start bytes }

/-- The correction of the OOB area, but not for jffs2; what `correct` returns is not looked at. -/
def check_spare_1bit (eng : EccEngine) (secc_start : Nat) (s : State) : State :=
  if ¬(s.oob_poi 2 = 0x85 ∧ s.oob_poi 3 = 0x19) then
    let (_, oob_poi, s) :=
      s3c_nand_correct_data eng s s.oob_poi (some 0) fun j ↦ s.oob_poi (secc_start + j)
    { s with oob_poi := oob_poi }
  else s

def s3c_nand_read_page_1bit (eng : EccEngine) (mtd : Mtd) (s : State) : State :=
  let s := fetch_spare_1bit eng mtd s
  let s := check_spare_1bit eng (mtd.oobsize - mtd.ecc.bytes) s
  decode_steps_1bit eng mtd mtd.ecc.steps 0 0 0 s

/-! ## Four and eight bits -/

/-- What the MLC writers do, with the parameters each of them uses. -/
def write_page_mlc (eng : EccEngine) (mtd : Mtd) (eccsize eccbytes eccsteps total : Nat) (s : State) :
    State :=
  let s := encode_steps eng eccsize eccbytes eccsteps 0 0 s
  let s := { s with oob_poi := scatter mtd.ecc.layout.pos s.ecccalc total s.oob_poi }
  write_buf s (s.oob_poi.load 0 mtd.oobsize)

/-- What the MLC readers do: the whole OOB area first, then the main area. -/
def read_page_mlc (eng : EccEngine) (mtd : Mtd) (eccsize eccbytes eccsteps : Nat) (s : State) : State :=
  let s := cmdfunc s .rndout mtd.writesize
  let (bytes, s) := read_buf s mtd.oobsize
  let s := { s with oob_poi := s.oob_poi.store 0 bytes }
  decode_steps_mlc eng mtd eccsize eccbytes eccsteps eccsteps 0 0 s

def s3c_nand_write_page_4bit (eng : EccEngine) (mtd : Mtd) (s : State) : State :=
  write_page_mlc eng mtd mtd.ecc.size mtd.ecc.bytes mtd.ecc.steps mtd.ecc.total s

def s3c_nand_read_page_4bit (eng : EccEngine) (mtd : Mtd) (s : State) : State :=
  read_page_mlc eng mtd mtd.ecc.size mtd.ecc.bytes mtd.ecc.steps s

def s3c_nand_write_page_8bit (eng : EccEngine) (mtd : Mtd) (s : State) : State :=
  write_page_mlc eng mtd 512 13 (mtd.writesize / 512) (13 * (mtd.writesize / 512)) s

def s3c_nand_read_page_8bit (eng : EccEngine) (mtd : Mtd) (s : State) : State :=
  read_page_mlc eng mtd 512 13 (mtd.writesize / 512) s

/-! ## The formats -/

inductive Format
  | bit1
  | bit4
  | bit8
  deriving DecidableEq

namespace Format

def nand_type : Format → NandType
  | bit1 => .slc
  | bit4 => .mlc4
  | bit8 => .mlc8

/-- `ecc.bytes` for the format. -/
def bytes : Format → Nat
  | bit1 => 4
  | bit4 => 8
  | bit8 => 13

def layouts : Format → List Layout
  | bit1 => layouts_1bit
  | bit4 => layouts_4bit
  | bit8 => layouts_8bit

/-- The OOB bytes behind the part that a layout may use: those of the spare area's own code. -/
def spare_bytes : Format → Nat
  | bit1 => 4
  | bit4 => 0
  | bit8 => 0

def write_page : Format → EccEngine → Mtd → State → State
  | bit1 => s3c_nand_write_page_1bit
  | bit4 => s3c_nand_write_page_4bit
  | bit8 => s3c_nand_write_page_8bit

def read_page : Format → EccEngine → Mtd → State → State
  | bit1 => s3c_nand_read_page_1bit
  | bit4 => s3c_nand_read_page_4bit
  | bit8 => s3c_nand_read_page_8bit

end Format

end OK210Drivers.Nand
