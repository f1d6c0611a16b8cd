import OK210Drivers.Nand.Report
import OK210Drivers.Nand.SingleBit

/-!
# What a page read makes of any contents

The page readers on a chip that may hold anything, with an engine that may report anything.  Each step
applies the corrections that the engine reports for its own bytes, and where these lie behind the bytes the
next steps read over them, as far as there are any.  The page buffer and `oob_poi` are separate memories.
-/

open Library

namespace OK210Drivers.Nand

section Corrections

variable (eng : EccEngine) (t : NandType)

/-- What is corrected in the `n` bytes at `c` when they are compared with `code`: positions from `c` on, and
bit patterns. -/
def corrections (m : Mem Byte) (c n : Nat) (code : List Byte) : List (Nat × Byte) :=
  if taken_for_blank t m c then []
  else match report t (eng.status t (m.load c n) code) with
    | .errors es => es
    | .clean | .uncorrectable => []

/-- The bytes are given up. -/
def gives_up (m : Mem Byte) (c n : Nat) (code : List Byte) : Bool :=
  decide (¬taken_for_blank t m c ∧ report t (eng.status t (m.load c n) code) = .uncorrectable)

section Steps

variable (bytes : Nat) (l : Layout) (cells oob : Mem Byte)

/-- The corrections of step `i`, which finds its code in `oob`. -/
def step_corrections (i : Nat) : List (Nat × Byte) :=
  corrections eng t cells (512 * i) 512 (oob.load (l.pos 0 + i * bytes) bytes)

def step_gives_up (i : Nat) : Bool :=
  gives_up eng t cells (512 * i) 512 (oob.load (l.pos 0 + i * bytes) bytes)

end Steps

/-- Corrections at their place in the buffer. -/
def moved (p : Nat) (es : List (Nat × Byte)) : List (Nat × Byte) := es.map fun x ↦ (p + x.1, x.2)

/-- `oob_poi` when a reader comes to the main area: the OOB area of the chip, which the 1-bit format
corrects unless it has the mark of jffs2. -/
def Format.spare (fmt : Format) (k oobsize : Nat) (s : State) : Mem Byte :=
  let oob := s.oob_poi.store 0 (s.cells.load (512 * k) oobsize)
  match fmt with
  | .bit1 =>
    if Marked oob then oob
    else Mem.xorAll (corrections eng .slc oob 0 (oobsize - 4) (oob.load (oobsize - 4) 4)) oob
  | .bit4 => oob
  | .bit8 => oob

end Corrections

/-! ## One call of `correct` -/

section Call

variable (eng : EccEngine) {t : NandType} {m buf : Mem Byte} {c p : Nat} (n : Nat) (code : List Byte)

theorem taken_for_blank_congr {m' : Mem Byte} (h : ∀ i < 64, m (c + i) = m' (p + i)) :
    taken_for_blank t m c ↔ taken_for_blank t m' p := by
  unfold taken_for_blank
  rw [h 17 (by omega), h 26 (by omega), h 35 (by omega), h 44 (by omega), h 54 (by omega)]

/-- The buffer after a call, and whether it fails. -/
theorem correct_corrections (hblank : taken_for_blank t buf p ↔ taken_for_blank t m c) :
    (correct t (eng.status t (m.load c n) code) buf p).2 =
        Mem.xorAll (moved p (corrections eng t m c n code)) buf ∧
      ((correct t (eng.status t (m.load c n) code) buf p).1 = -1 ↔ gives_up eng t m c n code = true) := by
  rw [correct_eq_outcome, corrections, gives_up, decide_eq_true_iff]
  by_cases hb : taken_for_blank t m c
  · rw [if_pos (hblank.mpr hb), if_pos hb]
    exact ⟨rfl, iff_of_false (by decide : ¬(0 : Int) = -1) fun h ↦ h.1 hb⟩
  · rw [if_neg (mt hblank.mp hb), if_neg hb]
    cases hrep : report t (eng.status t (m.load c n) code) with
    | clean => exact ⟨rfl, iff_of_false (by decide : ¬(0 : Int) = -1) nofun⟩
    | uncorrectable => exact ⟨rfl, iff_of_true rfl ⟨hb, rfl⟩⟩
    | errors es =>
      refine ⟨rfl, iff_of_false ?_ nofun⟩
      show ¬(es.length : Int) = -1
      omega

end Call

/-! ## One step of a reader -/

/-- Step `i` of a page read, which corrects `es` and counts a failure or not. -/
structure StepRead (i : Nat) (es : List (Nat × Byte)) (up : Bool) (s s' : State) : Prop where
  cells : s'.cells = s.cells
  oob_poi : s'.oob_poi = s.oob_poi
  nand_type : s'.nand_type = s.nand_type
  buf : s'.buf = Mem.xorAll (moved (512 * i) es) (s.buf.store (512 * i) (s.cells.load (512 * i) 512))
  failed : s'.failed = s.failed + up.toNat

section Steps

variable (eng : EccEngine) {s : State}

theorem count_failure_failed (s : State) {stat : Int} {up : Bool} (h : stat = -1 ↔ up = true) :
    count_failure s stat = { s with failed := s.failed + up.toNat } := by
  rw [count_failure]
  cases up with
  | true => rw [if_pos (h.mpr rfl)]; rfl
  | false => rw [if_neg fun hstat ↦ absurd (h.mp hstat) (by decide)]; rfl

theorem step_blank (t : NandType) (s : State) (i : Nat) :
    taken_for_blank t (s.buf.store (512 * i) (s.cells.load (512 * i) 512)) (512 * i) ↔
      taken_for_blank t s.cells (512 * i) :=
  taken_for_blank_congr fun _ hj ↦ Mem.store_load_inside _ _ _ _ _ _ (by omega)

theorem decode_step_mlc_reads (hslc : s.nand_type ≠ .slc) (i eccbytes ecc : Nat) :
    StepRead i
      (corrections eng s.nand_type s.cells (512 * i) 512 (s.oob_poi.load ecc eccbytes))
      (gives_up eng s.nand_type s.cells (512 * i) 512 (s.oob_poi.load ecc eccbytes)) s
      (decode_step_mlc eng 512 eccbytes ecc (512 * i) (512 * i) s) := by
  obtain ⟨hbuf, hup⟩ := correct_corrections eng 512 (s.oob_poi.load ecc eccbytes)
    (step_blank s.nand_type s i)
  let r := correct s.nand_type (eng.status s.nand_type (s.cells.load (512 * i) 512)
    (s.oob_poi.load ecc eccbytes)) (s.buf.store (512 * i) (s.cells.load (512 * i) 512)) (512 * i)
  have hstep : ∃ col e tr, decode_step_mlc eng 512 eccbytes ecc (512 * i) (512 * i) s =
      count_failure { s with col := col, programming := false, ecc := e, buf := r.2, trace := tr } r.1 := by
    refine ⟨512 * i + 512, { s.ecc with
      mode := .read
      stream := s.cells.load (512 * i) 512
      supplied := s.oob_poi.load ecc eccbytes
      locked := true }, s.trace ++ [.supplied (s.oob_poi.load ecc eccbytes)], ?_⟩
    simp [decode_step_mlc, cmdfunc, s3c_nand_enable_hwecc, read_buf, write_buf, s3c_nand_calculate_ecc,
      s3c_nand_correct_data, write_eccdata, handed_code, hslc, r]
  obtain ⟨col, e, tr, hstep⟩ := hstep
  rw [hstep, count_failure_failed _ hup, hbuf]
  exact ⟨rfl, rfl, rfl, rfl, rfl⟩

theorem decode_step_1bit_reads (hslc : s.nand_type = .slc) (i j ecc : Nat) :
    StepRead i (corrections eng .slc s.cells (512 * i) 512 (s.oob_poi.load ecc 4))
      (gives_up eng .slc s.cells (512 * i) 512 (s.oob_poi.load ecc 4)) s
      (decode_step_1bit eng 512 ecc j (512 * i) (512 * i) s) := by
  obtain ⟨hbuf, hup⟩ := correct_corrections eng 512 (s.oob_poi.load ecc 4)
    (step_blank .slc s i)
  let s' : State := { s with
    col := 512 * i + 512
    programming := false
    ecc := { s.ecc with
      mode := .read
      stream := s.cells.load (512 * i) 512
      supplied := []
      locked := true }
    buf := s.buf.store (512 * i) (s.cells.load (512 * i) 512)
    ecccalc := s.ecccalc.store j (eng.code .slc (s.cells.load (512 * i) 512))
    trace := s.trace ++ [.computed (eng.code .slc (s.cells.load (512 * i) 512))] }
  have hbody : decode_step_1bit eng 512 ecc j (512 * i) (512 * i) s =
      (let r := s3c_nand_correct_data eng s' s'.buf (some (512 * i)) fun x ↦ s'.oob_poi (ecc + x)
       count_failure { r.2.2 with buf := r.2.1 } r.1) := by
    simp [decode_step_1bit, cmdfunc, s3c_nand_enable_hwecc, read_buf, s3c_nand_calculate_ecc, hslc, s']
  obtain ⟨e, tr, he⟩ := correct_data_slc eng s' hslc s'.buf s'.oob_poi (512 * i) ecc
  rw [hbody, he]
  dsimp only
  rw [count_failure_failed _ hup, hbuf]
  exact ⟨rfl, rfl, rfl, rfl, rfl⟩

end Steps

/-! ## The loops -/

/-- The steps from `i` on, `n` of them. -/
structure StepsRead (es : Nat → List (Nat × Byte)) (up : Nat → Bool) (i n : Nat) (s s' : State) : Prop where
  cells : s'.cells = s.cells
  oob_poi : s'.oob_poi = s.oob_poi
  failed : s'.failed = s.failed + (List.range' i n).countP up
  front : ∀ a < 512 * i, s'.buf a = s.buf a
  own : ∀ j, i ≤ j → j < i + n → ∀ x < 512,
    s'.buf (512 * j + x) = s.cells (512 * j + x) ^^^ Mem.patternAt (es j) x
  behind : ∀ a, 512 * (i + n) ≤ a →
    s'.buf a = s.buf a ^^^ Mem.patternAt ((List.range' i n).flatMap fun j ↦ moved (512 * j) (es j)) a

section Loops

variable {es : Nat → List (Nat × Byte)} {up : Nat → Bool} {i n : Nat} {s s₁ s' : State}

theorem patternAt_moved_below {p a : Nat} (es : List (Nat × Byte)) (h : a < p) :
    Mem.patternAt (moved p es) a = 0 := by
  apply Mem.patternAt_eq_zero
  intro x hx
  obtain ⟨y, _, rfl⟩ := List.mem_map.mp hx
  show p + y.1 ≠ a
  omega

theorem StepRead.buf_apply {es : List (Nat × Byte)} {up : Bool} (h : StepRead i es up s s') (a : Nat) :
    s'.buf a =
      s.buf.store (512 * i) (s.cells.load (512 * i) 512) a ^^^ Mem.patternAt (moved (512 * i) es) a := by
  rw [h.buf, Mem.xorAll_apply]

theorem stepsRead_zero : StepsRead es up i 0 s s where
  cells := rfl
  oob_poi := rfl
  failed := rfl
  front _ _ := rfl
  own j hlo hhi := by omega
  behind _ _ := BitVec.xor_zero.symm

/-- A step, and the steps behind it, which read over what it has corrected in their bytes. -/
theorem StepRead.cons (h : StepRead i (es i) (up i) s s₁) (hs : StepsRead es up (i + 1) n s₁ s') :
    StepsRead es up i (n + 1) s s' where
  cells := hs.cells.trans h.cells
  oob_poi := hs.oob_poi.trans h.oob_poi
  failed := by
    rw [hs.failed, h.failed, List.range'_succ, List.countP_cons]
    cases up i with
    | true => rw [if_pos rfl, Bool.toNat_true]; omega
    | false => rw [if_neg (by decide), Bool.toNat_false]; omega
  front a ha := by
    rw [hs.front a (by omega), h.buf_apply, patternAt_moved_below _ ha, Mem.store_below _ _ _ _ ha]
    exact BitVec.xor_zero
  own j hlo hhi x hx := by
    by_cases hj : j = i
    · subst hj
      rw [hs.front _ (by omega), h.buf_apply, Mem.store_load_inside _ _ _ _ _ _ hx, moved,
        Mem.patternAt_map_add]
    · rw [hs.own j (by omega) (by omega) x hx, h.cells]
  behind a ha := by
    have hlen : (s.cells.load (512 * i) 512).length = 512 := Mem.load_length ..
    rw [hs.behind a (by omega), h.buf_apply, Mem.store_above _ _ _ _ (by omega), List.range'_succ,
      List.flatMap_cons, Mem.patternAt_append, BitVec.xor_assoc]

variable (eng : EccEngine) (mtd : Mtd)

theorem decode_steps_mlc_reads {t : NandType} (ht : t ≠ .slc) (bytes : Nat)
    (hn : n ≤ mtd.ecc.steps) {cells oob : Mem Byte} (hcells : s.cells = cells) (hoob : s.oob_poi = oob)
    (hs : s.nand_type = t) :
    StepsRead (step_corrections eng t bytes mtd.ecc.layout cells oob)
      (step_gives_up eng t bytes mtd.ecc.layout cells oob) (mtd.ecc.steps - n) n s
      (decode_steps_mlc eng mtd 512 bytes mtd.ecc.steps n (512 * (mtd.ecc.steps - n))
        (512 * (mtd.ecc.steps - n)) s) := by
  induction n generalizing s with
  | zero => exact stepsRead_zero
  | succ n ih =>
    obtain rfl := hs
    have hnext : mtd.ecc.steps - n = mtd.ecc.steps - (n + 1) + 1 := by omega
    have hstep := decode_step_mlc_reads eng ht (mtd.ecc.steps - (n + 1)) bytes
      (mtd.ecc.layout.pos 0 + (mtd.ecc.steps - (n + 1)) * bytes)
    rw [hcells, hoob] at hstep
    have hrest := ih (by omega) (hstep.cells.trans hcells) (hstep.oob_poi.trans hoob) hstep.nand_type
    rw [hnext] at hrest
    rw [decode_steps_mlc, show mtd.ecc.steps + 1 - (n + 1) = mtd.ecc.steps - (n + 1) + 1 by omega]
    exact hstep.cons hrest

theorem decode_steps_1bit_reads (hsize : mtd.ecc.size = 512) (hbytes : mtd.ecc.bytes = 4)
    (hn : n ≤ mtd.ecc.steps) {cells oob : Mem Byte} (hcells : s.cells = cells) (hoob : s.oob_poi = oob)
    (hs : s.nand_type = .slc) (j : Nat) :
    StepsRead (step_corrections eng .slc 4 mtd.ecc.layout cells oob)
      (step_gives_up eng .slc 4 mtd.ecc.layout cells oob) (mtd.ecc.steps - n) n s
      (decode_steps_1bit eng mtd n j (512 * (mtd.ecc.steps - n)) (512 * (mtd.ecc.steps - n)) s) := by
  induction n generalizing s j with
  | zero => exact stepsRead_zero
  | succ n ih =>
    have hnext : mtd.ecc.steps - n = mtd.ecc.steps - (n + 1) + 1 := by omega
    have hstep := decode_step_1bit_reads eng hs (mtd.ecc.steps - (n + 1)) j
      (mtd.ecc.layout.pos 0 + (mtd.ecc.steps - (n + 1)) * 4)
    rw [hcells, hoob] at hstep
    have hrest := ih (by omega) (hstep.cells.trans hcells) (hstep.oob_poi.trans hoob)
      (hstep.nand_type.trans hs) (j + 4)
    rw [hnext] at hrest
    rw [decode_steps_1bit, hsize, hbytes,
      show mtd.ecc.steps + 1 - (n + 1) = mtd.ecc.steps - (n + 1) + 1 by omega]
    exact hstep.cons hrest

end Loops

/-! ## The page -/

section Page

variable (eng : EccEngine) {l : Layout} {k oobsize : Nat}

/-- What the 1-bit reader does before it comes to the main area. -/
theorem spare_1bit_reads (h4 : 4 ≤ oobsize) (s : State) (hs : s.nand_type = .slc) :
    ∃ col pr e sums tr,
      check_spare_1bit eng (oobsize - 4) (fetch_spare_1bit eng (Format.bit1.mtd l k oobsize) s) = { s with
        col := col
        programming := pr
        ecc := e
        oob_poi := Format.bit1.spare eng k oobsize s
        ecccalc := sums
        trace := tr } := by
  obtain ⟨col, pr, e, sums, tr, hfetch, hstream, -⟩ := fetch_spare_1bit_eq eng (l := l) (k := k) h4 s hs
  generalize fetch_spare_1bit eng (Format.bit1.mtd l k oobsize) s = s₁ at hfetch
  have hoob : s₁.oob_poi = s.oob_poi.store 0 (s.cells.load (512 * k) oobsize) := by rw [hfetch]
  by_cases hmark : Marked s₁.oob_poi
  · refine ⟨col, pr, e, sums, s.trace ++ tr, ?_⟩
    rw [check_spare_1bit_marked eng _ hmark, hfetch, Format.spare, ← hoob, if_pos hmark, hoob]
  · have hfront : s₁.ecc.stream = s₁.oob_poi.load 0 (oobsize - 4) := by
      have hwindow := Mem.load_store_load s.oob_poi s.cells 0 (512 * k) oobsize 0 (oobsize - 4) (by omega)
      rw [Nat.zero_add, Nat.add_zero] at hwindow
      rw [hoob, hwindow, hfetch, hstream]
    have hslc : s₁.nand_type = .slc := by rw [hfetch, hs]
    obtain ⟨e', tr', hcorrect⟩ := correct_data_slc eng s₁ hslc s₁.oob_poi s₁.oob_poi 0 (oobsize - 4)
    have hbuf := (@correct_corrections eng .slc s₁.oob_poi s₁.oob_poi 0 0 (oobsize - 4)
      (s₁.oob_poi.load (oobsize - 4) 4) Iff.rfl).1
    have hmoved : ∀ es : List (Nat × Byte), moved 0 es = es := by
      intro es
      simp only [moved, Nat.zero_add, Prod.mk.eta, List.map_id']
    refine ⟨col, pr, e', sums, s₁.trace ++ tr', ?_⟩
    have hnot : ¬(s₁.oob_poi 2 = 0x85 ∧ s₁.oob_poi 3 = 0x19) := hmark
    rw [hfront, hbuf, hmoved] at hcorrect
    rw [check_spare_1bit, if_pos hnot, hcorrect, Format.spare, ← hoob, if_neg hmark, hfetch]

theorem read_page_mlc_reads {fmt : Format} (hmlc : fmt ≠ .bit1) (s : State)
    (hs : s.nand_type = fmt.nand_type) :
    let oob := s.oob_poi.store 0 (s.cells.load (512 * k) oobsize)
    ∃ s₁ : State, s₁.cells = s.cells ∧ s₁.buf = s.buf ∧ s₁.failed = s.failed ∧ s₁.oob_poi = oob ∧
      StepsRead (step_corrections eng fmt.nand_type fmt.bytes l s.cells oob)
        (step_gives_up eng fmt.nand_type fmt.bytes l s.cells oob) 0 k s₁
        (read_page_mlc eng (fmt.mtd l k oobsize) 512 fmt.bytes k s) := by
  intro oob
  have hsteps := @mtd_steps fmt l k oobsize
  have hslc : fmt.nand_type ≠ .slc := by
    cases fmt with
    | bit1 => exact absurd rfl hmlc
    | bit4 => decide
    | bit8 => decide
  let s₁ : State := { s with
    col := 512 * k + oobsize
    programming := false
    ecc.stream := if s.ecc.locked then s.ecc.stream else s.ecc.stream ++ s.cells.load (512 * k) oobsize
    oob_poi := oob }
  have hloop := @decode_steps_mlc_reads k s₁ eng (fmt.mtd l k oobsize) _ hslc fmt.bytes hsteps.ge
    _ _ rfl rfl hs
  rw [hsteps, Nat.sub_self] at hloop
  exact ⟨s₁, rfl, rfl, rfl, rfl, hloop⟩

theorem read_page_reads (fmt : Format) (hspare : fmt.spare_bytes ≤ oobsize) (s : State)
    (hs : s.nand_type = fmt.nand_type) :
    ∃ s₁ : State, s₁.cells = s.cells ∧ s₁.buf = s.buf ∧ s₁.failed = s.failed ∧
      s₁.oob_poi = fmt.spare eng k oobsize s ∧
      StepsRead (step_corrections eng fmt.nand_type fmt.bytes l s.cells (fmt.spare eng k oobsize s))
        (step_gives_up eng fmt.nand_type fmt.bytes l s.cells (fmt.spare eng k oobsize s)) 0 k s₁
        (fmt.read_page eng (fmt.mtd l k oobsize) s) := by
  have hsteps := @mtd_steps fmt l k oobsize
  cases fmt with
  | bit1 =>
    obtain ⟨col, pr, e, sums, tr, heq⟩ := spare_1bit_reads eng (l := l) (k := k) hspare s hs
    let s₁ : State := { s with
      col := col
      programming := pr
      ecc := e
      oob_poi := Format.bit1.spare eng k oobsize s
      ecccalc := sums
      trace := tr }
    have hloop := @decode_steps_1bit_reads k s₁ eng (Format.bit1.mtd l k oobsize) rfl rfl hsteps.ge
      _ _ rfl rfl hs 0
    rw [hsteps, Nat.sub_self] at hloop
    have hdef : s3c_nand_read_page_1bit eng (Format.bit1.mtd l k oobsize) s =
        decode_steps_1bit eng (Format.bit1.mtd l k oobsize) k 0 0 0 s₁ := by
      rw [s3c_nand_read_page_1bit, hsteps]
      exact congrArg (decode_steps_1bit eng (Format.bit1.mtd l k oobsize) k 0 0 0) heq
    refine ⟨s₁, rfl, rfl, rfl, rfl, ?_⟩
    rw [Format.read_page, hdef]
    exact hloop
  | bit4 =>
    have hread := @read_page_mlc_reads eng l k oobsize .bit4 (by decide) s hs
    show ∃ s₁ : State, _ ∧ _ ∧ _ ∧ _ ∧ StepsRead _ _ _ _ _ (s3c_nand_read_page_4bit eng _ s)
    rw [s3c_nand_read_page_4bit, hsteps]
    exact hread
  | bit8 =>
    have hread := @read_page_mlc_reads eng l k oobsize .bit8 (by decide) s hs
    have hk : 512 * k / 512 = k := Nat.mul_div_cancel_left k (by decide)
    show ∃ s₁ : State, _ ∧ _ ∧ _ ∧ _ ∧ StepsRead _ _ _ _ _ (read_page_mlc eng _ 512 13 (512 * k / 512) s)
    rw [hk]
    exact hread

end Page

/-- What a page read does, whatever the chip holds and whatever the engine reports.  Each piece arrives with
the corrections of its own step; every correction that lies behind the page is applied to the bytes there;
`failed` counts the steps that are given up; and `oob_poi` has the OOB area, for the 1-bit format corrected
as the engine reports. -/
theorem read_page_contents (eng : EccEngine) (fmt : Format) (l : Layout) {k oobsize : Nat}
    (hspare : fmt.spare_bytes ≤ oobsize) (s : State) (hs : s.nand_type = fmt.nand_type) :
    let oob := fmt.spare eng k oobsize s
    let es := step_corrections eng fmt.nand_type fmt.bytes l s.cells oob
    let t := fmt.read_page eng (fmt.mtd l k oobsize) s
    t.oob_poi = oob ∧
      t.failed =
        s.failed + (List.range k).countP (step_gives_up eng fmt.nand_type fmt.bytes l s.cells oob) ∧
      (∀ i < k, ∀ x < 512, t.buf (512 * i + x) = s.cells (512 * i + x) ^^^ Mem.patternAt (es i) x) ∧
      ∀ a, 512 * k ≤ a → t.buf a =
        s.buf a ^^^ Mem.patternAt ((List.range k).flatMap fun i ↦ moved (512 * i) (es i)) a := by
  intro oob es t
  obtain ⟨s₁, hcells, hbuf, hfailed, hoob, hread⟩ := @read_page_reads eng l k oobsize fmt hspare s hs
  rw [List.range_eq_range']
  refine ⟨hread.oob_poi.trans hoob, ?_, fun i hi x hx ↦ ?_, fun a ha ↦ ?_⟩
  · rw [← hfailed]
    exact hread.failed
  · rw [← hcells]
    exact hread.own i (Nat.zero_le i) (by omega) x hx
  · rw [← hbuf]
    exact hread.behind a (by omega)

section Mlc

variable (eng : EccEngine) {fmt : Format} (hmlc : fmt ≠ .bit1) {l : Layout} {k oobsize : Nat}
include hmlc

theorem mlc_bytes : fmt.bytes < 512 := by
  cases fmt with
  | bit1 => exact absurd rfl hmlc
  | bit4 => decide
  | bit8 => decide

theorem mlc_spare_bytes : fmt.spare_bytes = 0 := by
  cases fmt with
  | bit1 => exact absurd rfl hmlc
  | bit4 => rfl
  | bit8 => rfl

theorem mlc_spare (s : State) :
    fmt.spare eng k oobsize s = s.oob_poi.store 0 (s.cells.load (512 * k) oobsize) := by
  cases fmt with
  | bit1 => exact absurd rfl hmlc
  | bit4 => rfl
  | bit8 => rfl

/-- The steps compare with the codes that are in the chip. -/
theorem mlc_code (hroom : l.pos 0 + k * fmt.bytes ≤ oobsize) (s : State) {i : Nat} (hi : i < k) :
    (fmt.spare eng k oobsize s).load (l.pos 0 + i * fmt.bytes) fmt.bytes =
      s.cells.load (512 * k + l.pos 0 + i * fmt.bytes) fmt.bytes := by
  have hle := Nat.mul_le_mul_right fmt.bytes (Nat.succ_le_of_lt hi)
  rw [Nat.succ_mul] at hle
  have hwindow := Mem.load_store_load s.oob_poi s.cells 0 (512 * k) oobsize (l.pos 0 + i * fmt.bytes)
    fmt.bytes (by omega)
  rw [Nat.zero_add] at hwindow
  rw [mlc_spare eng hmlc, hwindow, Nat.add_assoc]

/-- When nothing is given up, and every step keeps to its bytes and its code, only the last one changes the
bytes behind the page. -/
theorem read_page_mlc_contents (hroom : l.pos 0 + k * fmt.bytes ≤ oobsize) (s : State)
    (hs : s.nand_type = fmt.nand_type) :
    let code := fun i ↦ s.cells.load (512 * k + l.pos 0 + i * fmt.bytes) fmt.bytes
    let es := fun i ↦ corrections eng fmt.nand_type s.cells (512 * i) 512 (code i)
    let t := fmt.read_page eng (fmt.mtd l k oobsize) s
    ((∀ i < k, gives_up eng fmt.nand_type s.cells (512 * i) 512 (code i) = false) → t.failed = s.failed) ∧
      (∀ i < k, ∀ x < 512, t.buf (512 * i + x) = s.cells (512 * i + x) ^^^ Mem.patternAt (es i) x) ∧
      (0 < k → (∀ i < k, ∀ x, 512 + fmt.bytes ≤ x → Mem.patternAt (es i) x = 0) →
        ∀ x, t.buf (512 * k + x) = s.buf (512 * k + x) ^^^ Mem.patternAt (es (k - 1)) (512 + x)) := by
  intro code es t
  have hzero := mlc_spare_bytes hmlc
  have hbytes := mlc_bytes hmlc
  obtain ⟨-, hfailed, hown, hbehind⟩ :=
    @read_page_contents eng fmt l k oobsize (by omega) s hs
  have hcode := fun i hi ↦ @mlc_code eng fmt hmlc l k oobsize hroom s i hi
  have hes : ∀ i < k, step_corrections eng fmt.nand_type fmt.bytes l s.cells (fmt.spare eng k oobsize s) i =
      es i := fun i hi ↦ congrArg (corrections eng fmt.nand_type s.cells (512 * i) 512) (hcode i hi)
  refine ⟨fun hup ↦ ?_, fun i hi x hx ↦ ?_, fun hk hfar x ↦ ?_⟩
  · rw [hfailed, List.countP_eq_zero.mpr fun i hi ↦ ?_]
    · rfl
    · have hi := List.mem_range.mp hi
      rw [step_gives_up, hcode i hi]
      exact Bool.eq_false_iff.mp (hup i hi)
  · rw [← hes i hi]
    exact hown i hi x hx
  · refine (hbehind (512 * k + x) (by omega)).trans (congrArg (s.buf (512 * k + x) ^^^ ·) ?_)
    obtain ⟨n, rfl⟩ : ∃ n, k = n + 1 := ⟨k - 1, by omega⟩
    rw [List.range_succ, List.flatMap_append, Mem.patternAt_append,
      Mem.patternAt_flatMap_eq_zero fun i hi ↦ ?_, List.flatMap_cons, List.flatMap_nil, List.append_nil,
      hes n (Nat.lt_succ_self n), show 512 * (n + 1) + x = 512 * n + (512 + x) by omega, moved,
      Mem.patternAt_map_add, Nat.add_sub_cancel]
    · exact BitVec.zero_xor
    · have hi := List.mem_range.mp hi
      rw [hes i (Nat.lt_succ_of_lt hi),
        show 512 * (n + 1) + x = 512 * i + (512 * (n + 1) + x - 512 * i) by omega, moved,
        Mem.patternAt_map_add]
      exact hfar i (Nat.lt_succ_of_lt hi) _ (by omega)

end Mlc

-- An engine with the code 0, for which any other code has a wrong byte 1.
def names_code_byte : EccEngine where
  encode := fun _ _ _ ↦ 0
  status := fun t _ code ↦
    if code = ecc_code t fun _ ↦ 0 then ⟨0, 0, 0, 0, 0, 0, 0, 0⟩
    else ⟨0, 0, 0, (1 <<< 25) ||| 513, 0, 0, (code.getD 1 0).setWidth 32, 0⟩
  accepts := by
    intro t stream
    rw [if_pos rfl]
    cases t <;> rfl

-- A chip that holds only ones.
theorem read_page_contents_ones :
    let mtd := Format.bit8.mtd s3c_nand_oob_mlc_128_8bit 2 128
    let t := Format.bit8.read_page names_code_byte mtd (booted fun _ ↦ 1)
    t.buf (512 * 1 + 511) = 1 ∧ t.buf (512 * 2 + 1) = 1 := by
  intro mtd t
  obtain ⟨-, -, hown, hbehind⟩ := @read_page_contents names_code_byte .bit8 s3c_nand_oob_mlc_128_8bit 2 128
    (by decide) (booted fun _ ↦ 1) rfl
  constructor
  · rw [hown 1 (by decide) 511 (by decide)]
    decide
  · rw [hbehind (512 * 2 + 1) (by decide)]
    decide

/-! ## A page that has changed since it was written -/

/-- For step `i` the engine reports the positions and the bits in which the data and the code, which stand
from `q` on, differ from those of `good`. -/
def Named (eng : EccEngine) (t : NandType) (bytes q : Nat) (good cells : Mem Byte) (i : Nat) : Prop :=
  ∃ es, report t (eng.status t (cells.load (512 * i) 512) (cells.load (q + i * bytes) bytes)) =
      (if es = [] then .clean else .errors es) ∧
    (∀ x < 512, Mem.patternAt es x = cells (512 * i + x) ^^^ good (512 * i + x)) ∧
    (∀ x < bytes, Mem.patternAt es (512 + x) = cells (q + i * bytes + x) ^^^ good (q + i * bytes + x)) ∧
    ∀ x, 512 + bytes ≤ x → Mem.patternAt es x = 0

section Disturbed

variable {eng : EccEngine} {t : NandType} {bytes q i : Nat} {good cells : Mem Byte}

theorem Named.gives_up (h : Named eng t bytes q good cells i) :
    gives_up eng t cells (512 * i) 512 (cells.load (q + i * bytes) bytes) = false := by
  obtain ⟨es, hrep, _⟩ := h
  refine decide_eq_false fun hup ↦ ?_
  rw [hrep] at hup
  by_cases hnil : es = []
  · rw [if_pos hnil] at hup
    cases hup.2
  · rw [if_neg hnil] at hup
    cases hup.2

/-- Unless the data is taken for a blank OOB area, the step undoes the difference in the data, and applies
that in the code to the bytes behind them. -/
theorem Named.applied (h : Named eng t bytes q good cells i) (hblank : ¬taken_for_blank t cells (512 * i)) :
    let es := corrections eng t cells (512 * i) 512 (cells.load (q + i * bytes) bytes)
    (∀ x < 512, cells (512 * i + x) ^^^ Mem.patternAt es x = good (512 * i + x)) ∧
      (∀ x < bytes, Mem.patternAt es (512 + x) = cells (q + i * bytes + x) ^^^ good (q + i * bytes + x)) ∧
      ∀ x, 512 + bytes ≤ x → Mem.patternAt es x = 0 := by
  intro es
  obtain ⟨fs, hrep, hdata, hcode, hrest⟩ := h
  obtain rfl : es = fs := by
    simp only [es, corrections, if_neg hblank, hrep]
    by_cases hnil : fs = []
    · rw [if_pos hnil, hnil]
    · rw [if_neg hnil]
  refine ⟨fun x hx ↦ ?_, hcode, hrest⟩
  rw [hdata x hx, ← BitVec.xor_assoc, BitVec.xor_self, BitVec.zero_xor]

theorem patternAt_blank {code : List Byte} {x : Nat} (hblank : taken_for_blank t cells (512 * i)) :
    Mem.patternAt (corrections eng t cells (512 * i) 512 code) x = 0 := by
  rw [corrections, if_pos hblank]
  rfl

theorem Named.far (h : Named eng t bytes q good cells i) {x : Nat} (hx : 512 + bytes ≤ x) :
    Mem.patternAt (corrections eng t cells (512 * i) 512 (cells.load (q + i * bytes) bytes)) x = 0 := by
  by_cases hblank : taken_for_blank t cells (512 * i)
  · exact patternAt_blank hblank
  · exact (h.applied hblank).2.2 x hx

end Disturbed

/-- A page of the 4-bit or 8-bit format that has changed since it was written, in any bits that the engine
can name.  It is read as it was written, but for pieces that the 4-bit format takes for a blank OOB area,
and no failure is counted; what has changed in the code of the last step changes the bytes behind the
buffer. -/
theorem read_page_disturbed (eng : EccEngine) {fmt : Format} (hmlc : fmt ≠ .bit1) {l : Layout}
    (hl : l ∈ fmt.layouts) {k oobsize : Nat} (hk : 0 < k) (hfit : k * fmt.bytes ≤ l.eccbytes)
    (hroom : l.pos 0 + k * fmt.bytes ≤ oobsize) (s r : State) (hs : s.nand_type = fmt.nand_type)
    (hr : r.nand_type = fmt.nand_type) :
    let good := (fmt.write_page eng (fmt.mtd l k oobsize) (cmdfunc s .seqin 0)).cells
    let t := fmt.read_page eng (fmt.mtd l k oobsize) (cmdfunc r .read0 0)
    let q := 512 * k + l.pos 0
    (∀ i < k, Named eng fmt.nand_type fmt.bytes q good r.cells i) →
      t.failed = r.failed ∧
      (t.buf.load 0 (512 * k) = s.buf.load 0 (512 * k) ↔
        ∀ i < k, taken_for_blank fmt.nand_type r.cells (512 * i) →
          r.cells.load (512 * i) 512 = s.buf.load (512 * i) 512) ∧
      ∀ x, t.buf (512 * k + x) = r.buf (512 * k + x) ^^^
        (if x < fmt.bytes ∧ ¬taken_for_blank fmt.nand_type r.cells (512 * (k - 1)) then
          r.cells (q + (k - 1) * fmt.bytes + x) ^^^ good (q + (k - 1) * fmt.bytes + x) else 0) := by
  intro good t q hnamed
  have hzero := mlc_spare_bytes hmlc
  have hc := contiguous_of_mem (mem_layouts hl)
  have hw : Written eng fmt l k oobsize s.buf s.oob_poi good :=
    (write_page_written eng fmt hc hfit (by omega) (by omega) s hs).1
  have hgood := Mem.load_pieces_iff.mp hw.page
  obtain ⟨hfailed, hown, hbehind⟩ := read_page_mlc_contents eng hmlc hroom (cmdfunc r .read0 0) hr
  -- each piece of the buffer
  have hpiece : ∀ i < k, t.buf.load (512 * i) 512 = if taken_for_blank fmt.nand_type r.cells (512 * i)
      then r.cells.load (512 * i) 512 else s.buf.load (512 * i) 512 := by
    intro i hi
    by_cases hblank : taken_for_blank fmt.nand_type r.cells (512 * i)
    · rw [if_pos hblank]
      exact Mem.load_congr fun x hx ↦ (hown i hi x hx).trans
        ((congrArg (r.cells (512 * i + x) ^^^ ·) (patternAt_blank hblank)).trans BitVec.xor_zero)
    · rw [if_neg hblank, ← hgood i hi]
      exact Mem.load_congr fun x hx ↦ (hown i hi x hx).trans (((hnamed i hi).applied hblank).1 x hx)
  refine ⟨hfailed fun i hi ↦ (hnamed i hi).gives_up, ?_, fun x ↦ ?_⟩
  · rw [Mem.load_pieces_iff]
    refine forall₂_congr fun i hi ↦ ?_
    rw [hpiece i hi]
    by_cases hblank : taken_for_blank fmt.nand_type r.cells (512 * i)
    · rw [if_pos hblank]
      exact ⟨fun h _ ↦ h, fun h ↦ h hblank⟩
    · rw [if_neg hblank]
      exact iff_of_true rfl (absurd · hblank)
  · refine (hbehind hk (fun i hi y hy ↦ ?_) x).trans (congrArg (r.buf (512 * k + x) ^^^ ·) ?_)
    · exact (hnamed i hi).far hy
    · by_cases hblank : taken_for_blank fmt.nand_type r.cells (512 * (k - 1))
      · rw [if_neg fun h ↦ h.2 hblank]
        exact patternAt_blank hblank
      · by_cases hx : x < fmt.bytes
        · rw [if_pos ⟨hx, hblank⟩]
          exact ((hnamed (k - 1) (by omega)).applied hblank).2.1 x hx
        · rw [if_neg fun h ↦ hx h.1]
          exact (hnamed (k - 1) (by omega)).far (by omega)

-- A page of one step: a bit of byte 1 of its code has changed, and byte 1 behind the buffer follows it.
theorem read_page_disturbed_code_byte :
    let s : State := { booted (fun _ ↦ 0xff) with buf := fun i ↦ BitVec.ofNat 8 i }
    let mtd := Format.bit8.mtd s3c_nand_oob_mlc_128_8bit 1 128
    let w := Format.bit8.write_page names_code_byte mtd (cmdfunc s .seqin 0)
    let r := booted (flip w.cells (512 + 24 + 1) 0x80)
    let t := Format.bit8.read_page names_code_byte mtd (cmdfunc r .read0 0)
    t.buf.load 0 (512 * 1) = s.buf.load 0 (512 * 1) ∧ t.buf (512 * 1 + 1) = 0x80 := by
  intro s mtd w r t
  have hl : s3c_nand_oob_mlc_128_8bit ∈ Format.bit8.layouts := List.mem_cons_self
  have hw : Written names_code_byte .bit8 s3c_nand_oob_mlc_128_8bit 1 128 s.buf s.oob_poi w.cells :=
    (write_page_written names_code_byte .bit8 (contiguous_of_mem (mem_layouts hl)) (by decide) (by decide)
      (by decide) s rfl).1
  have hcode : w.cells.load (512 + 24) 13 = Mem.load (fun _ ↦ 0) (512 + 24) 13 :=
    hw.main.trans (by decide)
  have hgood : ∀ x < 13, w.cells (512 + 24 + x) = 0 := by
    intro x hx
    have hget := congrArg (·[x]?) hcode
    simpa only [Mem.load_getElem? _ _ _ _ hx, Option.some.injEq] using hget
  have hbad : ∀ x < 13, r.cells (512 + 24 + x) = if x = 1 then 0x80 else 0 := by
    intro x hx
    by_cases hone : x = 1
    · rw [if_pos hone, hone, booted_cells, flip, Function.update_self, hgood 1 (by decide)]
      rfl
    · rw [if_neg hone, ← hgood x hx]
      exact flip_of_ne (by omega)
  have hread : r.cells.load (512 + 24) 13 = Mem.load (fun a ↦ if a = 537 then 0x80 else 0) (512 + 24) 13 :=
    Mem.load_congr fun x hx ↦ (hbad x hx).trans (if_congr (by omega) rfl rfl)
  have hnamed : Named names_code_byte .mlc8 13 (512 * 1 + 24) w.cells r.cells 0 := by
    refine ⟨[(513, 0x80)], ?_, fun x hx ↦ ?_, fun x hx ↦ ?_, fun x hx ↦ ?_⟩
    · show report .mlc8 (names_code_byte.status .mlc8 _ (r.cells.load (512 + 24) 13)) = _
      rw [hread]
      decide
    · have hne : 512 * 0 + x ≠ 512 + 24 + 1 := by omega
      rw [show r.cells (512 * 0 + x) = w.cells (512 * 0 + x) from flip_of_ne hne, BitVec.xor_self]
      exact Mem.patternAt_eq_zero (by simp; omega)
    · rw [show 512 * 1 + 24 + 0 * 13 + x = 512 + 24 + x by omega, hbad x hx, hgood x hx]
      by_cases hone : x = 1
      · rw [hone]
        decide
      · rw [if_neg hone]
        exact Mem.patternAt_eq_zero (by simp; omega)
    · exact Mem.patternAt_eq_zero (by simp; omega)
  obtain ⟨-, hdata, hbehind⟩ := @read_page_disturbed names_code_byte .bit8 (by decide) _ hl 1 128
    (by decide) (by decide) (by decide) s r rfl rfl fun i hi ↦ by
      obtain rfl : i = 0 := by omega
      exact hnamed
  refine ⟨hdata.mpr fun i _ hblank ↦ absurd hblank.1 (by decide), ?_⟩
  have hnot : ¬taken_for_blank .mlc8 r.cells (512 * (1 - 1)) := fun h ↦ absurd h.1 (by decide)
  have hat :
      512 * 1 + s3c_nand_oob_mlc_128_8bit.pos 0 + (1 - 1) * Format.bit8.bytes + 1 = 512 + 24 + 1 := by
    decide
  rw [hbehind 1, if_pos ⟨by decide, hnot⟩, hat, hbad 1 (by decide), hgood 1 (by decide)]
  exact BitVec.zero_xor

end OK210Drivers.Nand
