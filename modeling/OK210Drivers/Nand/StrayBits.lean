import OK210Drivers.Nand.Pages
import OK210Drivers.Nand.Report

/-!
# Corrections behind the data

The positions that the controller reports reach past the data of a step: those of the MLC formats to 1023
and that of the 1-bit format to 2047.  `s3c_nand_correct_data` corrects there too.
-/

open Library

namespace OK210Drivers.Nand

/-- A call of `ecc.correct`: the registers it finds, the buffer it is given, and the place and the number
of the bytes that have just been read. -/
structure Call where
  nand_type : NandType
  regs : ErrorRegs
  dat : Mem Byte
  p : Nat
  size : Nat

def Call.result (c : Call) : Mem Byte := (correct c.nand_type c.regs c.dat c.p).2

/-- The call changes no byte outside those that have just been read. -/
def Call.Inside (c : Call) : Prop := ∀ a, a < c.p ∨ c.p + c.size ≤ a → c.result a = c.dat a

/-- Behind the bytes that have just been read the bit patterns reported for one position cancel out, as
they do when there are none, unless nothing is corrected at all. -/
def Call.NoStray (c : Call) : Prop :=
  ¬taken_for_blank c.nand_type c.dat c.p → ∀ es, report c.nand_type c.regs = .errors es →
    ∀ a, c.size ≤ a → Mem.patternAt es a = 0

/-- The registers at a call of `s3c_nand_correct_data`. -/
def registers (eng : EccEngine) (s : State) (read_ecc : Nat → Byte) : ErrorRegs :=
  let s := write_eccdata s read_ecc
  eng.status s.nand_type s.ecc.stream (handed_code s)

/-- A step of `s3c_nand_read_page_1bit` up to the call. -/
def fetch_step_1bit (eng : EccEngine) (eccsize i p col : Nat) (s : State) : State :=
  let s := cmdfunc s .rndout col
  let s := s3c_nand_enable_hwecc s .read
  let (bytes, s) := read_buf s eccsize
  let s := { s with buf := s.buf.store p bytes }
  let (code, s) := s3c_nand_calculate_ecc eng s
  { s with ecccalc := s.ecccalc.store i code }

def call_1bit (eng : EccEngine) (eccsize ecc i p col : Nat) (s : State) : Call :=
  let s := fetch_step_1bit eng eccsize i p col s
  ⟨s.nand_type, registers eng s fun j ↦ s.oob_poi (ecc + j), s.buf, p, eccsize⟩

/-- A step of the MLC readers up to the call. -/
def fetch_step_mlc (eng : EccEngine) (eccsize eccbytes ecc p col : Nat) (s : State) : State :=
  let s := cmdfunc s .rndout col
  let s := s3c_nand_enable_hwecc s .read
  let (bytes, s) := read_buf s eccsize
  let s := { s with buf := s.buf.store p bytes }
  let s := write_buf s (s.oob_poi.load ecc eccbytes)
  (s3c_nand_calculate_ecc eng s).2

def call_mlc (eng : EccEngine) (eccsize eccbytes ecc p col : Nat) (s : State) : Call :=
  let s := fetch_step_mlc eng eccsize eccbytes ecc p col s
  ⟨s.nand_type, registers eng s fun _ ↦ 0, s.buf, p, eccsize⟩

/-- The calls of the loop of `s3c_nand_read_page_1bit`. -/
def decode_calls_1bit (eng : EccEngine) (mtd : Mtd) : (eccsteps i p col : Nat) → State → List Call
  | 0, _, _, _, _ => []
  | eccsteps + 1, i, p, col, s =>
    let ecc := mtd.ecc.layout.pos 0 + (mtd.ecc.steps - (eccsteps + 1)) * mtd.ecc.bytes
    call_1bit eng mtd.ecc.size ecc i p col s ::
      decode_calls_1bit eng mtd eccsteps (i + mtd.ecc.bytes) (p + mtd.ecc.size)
        (mtd.ecc.size * (mtd.ecc.steps + 1 - (eccsteps + 1)))
        (decode_step_1bit eng mtd.ecc.size ecc i p col s)

/-- The calls of the loop of the MLC readers. -/
def decode_calls_mlc (eng : EccEngine) (mtd : Mtd) (eccsize eccbytes steps : Nat) :
    (eccsteps p col : Nat) → State → List Call
  | 0, _, _, _ => []
  | eccsteps + 1, p, col, s =>
    let ecc := mtd.ecc.layout.pos 0 + (mtd.ecc.steps - (eccsteps + 1)) * eccbytes
    call_mlc eng eccsize eccbytes ecc p col s ::
      decode_calls_mlc eng mtd eccsize eccbytes steps eccsteps (p + eccsize)
        (eccsize * (steps + 1 - (eccsteps + 1))) (decode_step_mlc eng eccsize eccbytes ecc p col s)

def read_calls_mlc (eng : EccEngine) (mtd : Mtd) (eccsize eccbytes eccsteps : Nat) (s : State) :
    List Call :=
  let s := cmdfunc s .rndout mtd.writesize
  let (bytes, s) := read_buf s mtd.oobsize
  let s := { s with oob_poi := s.oob_poi.store 0 bytes }
  decode_calls_mlc eng mtd eccsize eccbytes eccsteps eccsteps 0 0 s

/-- The calls of `ecc.correct` for the steps of a page read. -/
def read_calls (fmt : Format) (eng : EccEngine) (mtd : Mtd) (s : State) : List Call :=
  match fmt with
  | .bit1 =>
    let s := fetch_spare_1bit eng mtd s
    let s := check_spare_1bit eng (mtd.oobsize - mtd.ecc.bytes) s
    decode_calls_1bit eng mtd mtd.ecc.steps 0 0 0 s
  | .bit4 => read_calls_mlc eng mtd mtd.ecc.size mtd.ecc.bytes mtd.ecc.steps s
  | .bit8 => read_calls_mlc eng mtd 512 13 (mtd.writesize / 512) s

/-- The bytes of one step of a format. -/
def Format.step_size (fmt : Format) (mtd : Mtd) : Nat :=
  match fmt with
  | .bit1 => mtd.ecc.size
  | .bit4 => mtd.ecc.size
  | .bit8 => 512

/-- Calls one after the other from offset `p` on, which turn `m` into `m'`: each step stores what it has
read in its own piece and then corrects it. -/
def Chained (size : Nat) : Nat → Mem Byte → List Call → Mem Byte → Prop
  | _, m, [], m' => m' = m
  | p, m, c :: cs, m' => c.p = p ∧ c.size = size ∧
    (∀ a, a < p ∨ p + size ≤ a → c.dat a = m a) ∧ Chained size (p + size) c.result cs m'

section Calls

variable {size p : Nat} {m m' : Mem Byte} {cs : List Call}

theorem Call.inside_of_unchanged {c : Call} (h : c.result = c.dat) : c.Inside := by
  intro a _
  rw [h]

/-- Errors corrected stay inside when their patterns behind the bytes cancel out. -/
theorem Call.inside_of_errors {c : Call} {es : List (Nat × Byte)}
    (h : c.result = Mem.xorAll (es.map fun x ↦ (c.p + x.1, x.2)) c.dat) :
    c.Inside ↔ ∀ a, c.size ≤ a → Mem.patternAt es a = 0 := by
  have hres : ∀ a, c.result a = c.dat a ^^^ Mem.patternAt (es.map fun x ↦ (c.p + x.1, x.2)) a := by
    intro a
    rw [h]
    exact Mem.xorAll_apply _ _ _
  constructor
  · intro hin a ha
    have hsame := hin (c.p + a) (Or.inr (by omega))
    rw [hres, Mem.patternAt_map_add] at hsame
    exact (BitVec.xor_right_inj _).mp (hsame.trans BitVec.xor_zero.symm)
  · intro hzero a ha
    have hnone : Mem.patternAt (es.map fun x ↦ (c.p + x.1, x.2)) a = 0 := by
      rcases ha with hlow | hhigh
      · apply Mem.patternAt_eq_zero
        intro x hx
        obtain ⟨y, _, rfl⟩ := List.mem_map.mp hx
        show c.p + y.1 ≠ a
        omega
      · have ha : a = c.p + (a - c.p) := by omega
        rw [ha, Mem.patternAt_map_add]
        exact hzero _ (by omega)
    rw [hres, hnone]
    exact BitVec.xor_zero

theorem Call.noStray_of_not_errors {c : Call} (h : ∀ es, report c.nand_type c.regs ≠ .errors es) :
    c.NoStray := fun _ es hes ↦ absurd hes (h es)

theorem inside_iff (c : Call) : c.Inside ↔ c.NoStray := by
  have heq : c.result = (outcome (if taken_for_blank c.nand_type c.dat c.p then .clean
      else report c.nand_type c.regs) c.dat c.p).2 :=
    congrArg Prod.snd (correct_eq_outcome c.regs c.dat c.p c.nand_type)
  by_cases hblank : taken_for_blank c.nand_type c.dat c.p
  · rw [if_pos hblank] at heq
    exact iff_of_true (Call.inside_of_unchanged heq) (absurd hblank)
  rw [if_neg hblank] at heq
  cases hrep : report c.nand_type c.regs with
  | clean =>
    rw [hrep] at heq
    refine iff_of_true (Call.inside_of_unchanged heq) (Call.noStray_of_not_errors ?_)
    rw [hrep]
    exact nofun
  | uncorrectable =>
    rw [hrep] at heq
    refine iff_of_true (Call.inside_of_unchanged heq) (Call.noStray_of_not_errors ?_)
    rw [hrep]
    exact nofun
  | errors es =>
    rw [hrep] at heq
    rw [Call.inside_of_errors heq]
    constructor
    · intro hzero _ es' hes'
      rw [hrep] at hes'
      cases hes'
      exact hzero
    · intro hno
      exact hno hblank es hrep

theorem Chained.places (h : Chained size p m cs m') :
    ∀ k c, cs[k]? = some c → c.p = p + k * size ∧ c.size = size := by
  induction cs generalizing p m with
  | nil =>
    intro k c hk
    cases hk
  | cons d cs ih =>
    intro k c hk
    obtain ⟨hp, hsize, _, hrest⟩ := h
    cases k with
    | zero =>
      cases hk
      exact ⟨by omega, hsize⟩
    | succ k =>
      obtain ⟨hpk, hsk⟩ := ih hrest k c hk
      refine ⟨?_, hsk⟩
      rw [hpk, Nat.succ_mul]
      omega

-- What lies in front of the steps to come, or in none of their pieces, stays as it is.
theorem Chained.outside (h : Chained size p m cs m') (hin : ∀ c ∈ cs, c.Inside) {a : Nat}
    (ha : ∀ c ∈ cs, a < c.p ∨ c.p + c.size ≤ a) : m' a = m a := by
  induction cs generalizing p m with
  | nil => exact congrFun h a
  | cons c cs ih =>
    obtain ⟨rfl, rfl, hdat, hrest⟩ := h
    have hac := ha c (List.mem_cons_self ..)
    calc m' a = c.result a :=
          ih hrest (fun d hd ↦ hin d (List.mem_cons_of_mem _ hd)) fun d hd ↦ ha d (List.mem_cons_of_mem _ hd)
      _ = c.dat a := hin c (List.mem_cons_self ..) a hac
      _ = m a := hdat a hac

-- A step keeps what the steps before it have made of their pieces.
theorem Chained.own (h : Chained size p m cs m') (hin : ∀ c ∈ cs, c.Inside) :
    ∀ c ∈ cs, ∀ a, c.p ≤ a → a < c.p + c.size → m' a = c.result a := by
  induction cs generalizing p m with
  | nil =>
    intro c hc
    cases hc
  | cons d cs ih =>
    obtain ⟨rfl, rfl, _, hrest⟩ := h
    have hin' : ∀ c ∈ cs, c.Inside := fun c hc ↦ hin c (List.mem_cons_of_mem _ hc)
    intro c hc a hlo hhi
    rcases List.mem_cons.mp hc with rfl | hc
    · apply hrest.outside hin'
      intro e he
      obtain ⟨k, hk⟩ := List.mem_iff_getElem?.mp he
      have hplace := (hrest.places k e hk).1
      left
      omega
    · exact ih hrest hin' c hc a hlo hhi

end Calls

section Read

variable (eng : EccEngine) (mtd : Mtd)

-- What a step leaves in the buffer is what the call makes of it.
theorem correct_data_buf (s : State) (dat : Mem Byte) (p : Nat) (read_ecc : Nat → Byte) :
    (s3c_nand_correct_data eng s dat (some p) read_ecc).2.1 =
      (correct s.nand_type (registers eng s read_ecc) dat p).2 := by
  unfold s3c_nand_correct_data registers write_eccdata
  by_cases hslc : s.nand_type = .slc
  · rw [if_pos hslc]
  · rw [if_neg hslc]

theorem count_failure_buf (s : State) (stat : Int) : (count_failure s stat).buf = s.buf := by
  unfold count_failure
  split <;> rfl

theorem decode_step_1bit_buf (eccsize ecc i p col : Nat) (s : State) :
    (decode_step_1bit eng eccsize ecc i p col s).buf = (call_1bit eng eccsize ecc i p col s).result := by
  show (count_failure _ _).buf = _
  rw [count_failure_buf]
  exact correct_data_buf eng (fetch_step_1bit eng eccsize i p col s) _ p _

theorem decode_step_mlc_buf (eccsize eccbytes ecc p col : Nat) (s : State) :
    (decode_step_mlc eng eccsize eccbytes ecc p col s).buf =
      (call_mlc eng eccsize eccbytes ecc p col s).result := by
  show (count_failure _ _).buf = _
  rw [count_failure_buf]
  exact correct_data_buf eng (fetch_step_mlc eng eccsize eccbytes ecc p col s) _ p _

-- Up to the call a step changes its own piece of the buffer.
theorem fetch_step_1bit_buf (eccsize i p col : Nat) (s : State) :
    (fetch_step_1bit eng eccsize i p col s).buf = s.buf.store p (s.cells.load col eccsize) := by
  unfold fetch_step_1bit s3c_nand_calculate_ecc
  dsimp only
  split <;> rfl

theorem fetch_step_mlc_buf (eccsize eccbytes ecc p col : Nat) (s : State) :
    (fetch_step_mlc eng eccsize eccbytes ecc p col s).buf = s.buf.store p (s.cells.load col eccsize) := by
  unfold fetch_step_mlc s3c_nand_calculate_ecc
  dsimp only
  split <;> rfl

theorem store_load_outside (buf cells : Mem Byte) {p col n a : Nat} (ha : a < p ∨ p + n ≤ a) :
    buf.store p (cells.load col n) a = buf a := by
  apply Mem.store_outside
  rwa [Mem.load_length]

theorem decode_steps_1bit_chained (n i p col : Nat) (s : State) :
    Chained mtd.ecc.size p s.buf (decode_calls_1bit eng mtd n i p col s)
      (decode_steps_1bit eng mtd n i p col s).buf := by
  induction n generalizing i p col s with
  | zero => rfl
  | succ n ih =>
    refine ⟨rfl, rfl, fun a ha ↦ ?_, ?_⟩
    · show (fetch_step_1bit eng mtd.ecc.size i p col s).buf a = _
      rw [fetch_step_1bit_buf]
      exact store_load_outside _ _ ha
    · rw [← decode_step_1bit_buf]
      exact ih ..

theorem decode_steps_mlc_chained (eccsize eccbytes steps n p col : Nat) (s : State) :
    Chained eccsize p s.buf (decode_calls_mlc eng mtd eccsize eccbytes steps n p col s)
      (decode_steps_mlc eng mtd eccsize eccbytes steps n p col s).buf := by
  induction n generalizing p col s with
  | zero => rfl
  | succ n ih =>
    refine ⟨rfl, rfl, fun a ha ↦ ?_, ?_⟩
    · show (fetch_step_mlc eng eccsize eccbytes _ p col s).buf a = _
      rw [fetch_step_mlc_buf]
      exact store_load_outside _ _ ha
    · rw [← decode_step_mlc_buf]
      exact ih ..

-- The OOB area is read, and with the 1-bit format corrected, without the page buffer.
theorem spare_1bit_buf (s : State) :
    (check_spare_1bit eng (mtd.oobsize - mtd.ecc.bytes) (fetch_spare_1bit eng mtd s)).buf = s.buf := by
  have hfetch : (fetch_spare_1bit eng mtd s).buf = s.buf := by
    unfold fetch_spare_1bit s3c_nand_calculate_ecc
    dsimp only
    split <;> rfl
  rw [← hfetch]
  unfold check_spare_1bit s3c_nand_correct_data write_eccdata
  split
  · dsimp only
    split <;> rfl
  · rfl

theorem read_page_mlc_chained (eccsize eccbytes eccsteps : Nat) (s : State) :
    Chained eccsize 0 s.buf (read_calls_mlc eng mtd eccsize eccbytes eccsteps s)
      (read_page_mlc eng mtd eccsize eccbytes eccsteps s).buf := by
  let s' : State := (read_buf (cmdfunc s .rndout mtd.writesize) mtd.oobsize).2
  let bytes := (read_buf (cmdfunc s .rndout mtd.writesize) mtd.oobsize).1
  exact decode_steps_mlc_chained eng mtd eccsize eccbytes eccsteps eccsteps 0 0
    { s' with oob_poi := s'.oob_poi.store 0 bytes }

theorem read_page_chained (fmt : Format) (s : State) :
    Chained (fmt.step_size mtd) 0 s.buf (read_calls fmt eng mtd s) (fmt.read_page eng mtd s).buf := by
  cases fmt with
  | bit1 =>
    have h := decode_steps_1bit_chained eng mtd mtd.ecc.steps 0 0 0
      (check_spare_1bit eng (mtd.oobsize - mtd.ecc.bytes) (fetch_spare_1bit eng mtd s))
    rw [spare_1bit_buf] at h
    exact h
  | bit4 => exact read_page_mlc_chained eng mtd mtd.ecc.size mtd.ecc.bytes mtd.ecc.steps s
  | bit8 => exact read_page_mlc_chained eng mtd 512 13 (mtd.writesize / 512) s

/-- A call of `ecc.correct` for a step of a page read stays inside the bytes of the step exactly when no
bit pattern is left behind them; and where all of them do, the page read touches nothing behind the page
and leaves every piece as its own step has corrected it. -/
theorem read_page_inside (fmt : Format) (s : State) :
    (∀ k c, (read_calls fmt eng mtd s)[k]? = some c →
      c.p = k * fmt.step_size mtd ∧ c.size = fmt.step_size mtd ∧ (c.Inside ↔ c.NoStray)) ∧
    ((∀ c ∈ read_calls fmt eng mtd s, c.NoStray) →
      (∀ a, (read_calls fmt eng mtd s).length * fmt.step_size mtd ≤ a →
        (fmt.read_page eng mtd s).buf a = s.buf a) ∧
      ∀ c ∈ read_calls fmt eng mtd s, ∀ a, c.p ≤ a → a < c.p + c.size →
        (fmt.read_page eng mtd s).buf a = c.result a) := by
  have hchain := read_page_chained eng mtd fmt s
  have hplaces := hchain.places
  refine ⟨fun k c hk ↦ ?_, fun h ↦ ?_⟩
  · obtain ⟨hp, hsize⟩ := hplaces k c hk
    exact ⟨by omega, hsize, inside_iff c⟩
  · have hin : ∀ c ∈ read_calls fmt eng mtd s, c.Inside := fun c hc ↦ (inside_iff c).mpr (h c hc)
    refine ⟨fun a ha ↦ hchain.outside hin fun c hc ↦ ?_, hchain.own hin⟩
    obtain ⟨k, hk⟩ := List.mem_iff_getElem?.mp hc
    obtain ⟨hp, hsize⟩ := hplaces k c hk
    have hlt : k + 1 ≤ (read_calls fmt eng mtd s).length := (List.getElem?_eq_some_iff.mp hk).1
    have hle := Nat.mul_le_mul_right (fmt.step_size mtd) hlt
    rw [Nat.succ_mul] at hle
    right
    omega

end Read

/-- An engine that reports bit 0 of byte 512 for whatever does not come with the code 0. -/
def reports_byte_512 : EccEngine where
  encode := fun _ _ _ ↦ 0
  status := fun t _ code ↦
    if code = ecc_code t fun _ ↦ 0 then ⟨0, 0, 0, 0, 0, 0, 0, 0⟩ else ⟨0x10001, 0, 0, 0, 0, 0, 0, 0⟩
  accepts := by
    intro t stream
    rw [if_pos rfl]
    cases t <;> rfl

/-- The only step of a page of 512 bytes corrects the byte behind the page. -/
theorem corrects_behind_the_page :
    let mtd := nand_scan_tail 512 16 512 4 s3c_nand_oob_16
    let s : State := ⟨fun _ ↦ 1, 0, false, ⟨.read, [], [], true, 0, 0⟩, .slc, fun _ ↦ 0, fun _ ↦ 0,
      fun _ ↦ 0, 0, []⟩
    ∃ c, read_calls .bit1 reports_byte_512 mtd s = [c] ∧ report c.nand_type c.regs = .errors [(512, 1)] ∧
      c.p = 0 ∧ c.size = 512 ∧ ¬c.Inside := by
  intro mtd s
  let s' := check_spare_1bit reports_byte_512 12 (fetch_spare_1bit reports_byte_512 mtd s)
  let c := call_1bit reports_byte_512 512 (s3c_nand_oob_16.pos 0) 0 0 0 s'
  have hrep : report c.nand_type c.regs = .errors [(512, 1)] := by decide
  refine ⟨c, rfl, hrep, rfl, rfl, fun hin ↦ ?_⟩
  have hslc : ¬taken_for_blank c.nand_type c.dat c.p := by
    rintro ⟨ht, _⟩
    cases ht
  have hzero := (inside_iff c).mp hin hslc _ hrep 512 (Nat.le_refl 512)
  exact absurd hzero (by decide)

end OK210Drivers.Nand
