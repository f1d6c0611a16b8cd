import OK210Drivers.Library.Runs
import OK210Drivers.Nand.Oob

/-!
# An SLC chip as a store of pages

The pages of a chip under any sequence of the driver's page and OOB functions.  Programming does not
replace what a page holds: both functions program the code of the OOB area they have, so after the second
one that code is no longer that of anything.  What the pages hold in terms of the calls is `Store`.
-/

open Library

namespace OK210Drivers.Nand

/-- What programming makes of a cell: one that is erased takes the byte, and `0xff` leaves it alone. -/
structure Cell where
  program : Byte → Byte → Byte
  fresh : ∀ b, program 0xff b = b
  keep : ∀ b, program b 0xff = b

/-- The array, and the page register and everything else that `State` has. -/
structure Flash where
  pages : Nat → Mem Byte
  driver : State

/-- The calls, and a page that was left with any contents because programming it failed. -/
inductive Op
  | erase (block : Nat)
  | write_page (page : Nat) (buf oob : Mem Byte)
  | write_oob (page : Nat) (oob : Mem Byte)
  | read_page (page : Nat)
  | read_oob (page : Nat)
  | fail (page : Nat) (cells : Mem Byte)

section Calls

variable (eng : EccEngine) (cell : Cell) (mtd : Mtd) (pages_per_block : Nat)

/-- `SEQIN` clears the page register. -/
def blank_register (s : State) : State := { s with cells := fun _ ↦ 0xff }

/-- `PAGEPROG`. -/
def Flash.program (c : Flash) (page : Nat) (s : State) : Flash where
  pages := Function.update c.pages page fun a ↦ cell.program (c.pages page a) (s.cells a)
  driver := s

/-- What `write_page` leaves in the page register. -/
def page_register (s : State) (buf oob : Mem Byte) : State :=
  s3c_nand_write_page_1bit eng mtd
    (cmdfunc { blank_register s with buf := buf, oob_poi := oob } .seqin 0)

def oob_register (s : State) (oob : Mem Byte) : State :=
  (s3c_nand_write_oob_1bit eng mtd false { blank_register s with oob_poi := oob }).2

/-- The state after `read_page` of a page. -/
def Flash.read_page (c : Flash) (page : Nat) : State :=
  s3c_nand_read_page_1bit eng mtd (cmdfunc { c.driver with cells := c.pages page } .read0 0)

def Flash.read_oob (c : Flash) (page : Nat) : State :=
  (s3c_nand_read_oob_1bit eng mtd true { c.driver with cells := c.pages page }).2

def Flash.exec (c : Flash) : Op → Flash
  | .erase block =>
    { c with pages := fun p ↦ if p / pages_per_block = block then fun _ ↦ 0xff else c.pages p }
  | .write_page page buf oob => c.program cell page (page_register eng mtd c.driver buf oob)
  | .write_oob page oob => c.program cell page (oob_register eng mtd c.driver oob)
  | .read_page page => { c with driver := c.read_page eng mtd page }
  | .read_oob page => { c with driver := c.read_oob eng mtd page }
  | .fail page cells => { c with pages := Function.update c.pages page cells }

def Flash.Step (c : Flash) (op : Op) (c' : Flash) : Prop :=
  c' = c.exec eng cell mtd pages_per_block op

end Calls

/-! ## What the calls mean -/

/-- What has become of a page since it was erased: the data written to its main area, the OOB bytes
programmed outside of the codes, and how often it was programmed. -/
structure Record where
  data : Option (Mem Byte)
  oob : Mem Byte
  programs : Nat

/-- The pages whose contents are known. -/
abbrev Store := Nat → Option Record

section Meaning

variable (cell : Cell) (pages_per_block : Nat)

def Record.blank : Record := ⟨none, fun _ ↦ 0xff, 0⟩

def Record.add_oob (r : Record) (oob : Mem Byte) : Record :=
  { r with oob := fun x ↦ cell.program (r.oob x) (oob x), programs := r.programs + 1 }

def Record.add_page (r : Record) (buf oob : Mem Byte) : Record :=
  { r.add_oob cell oob with data := some buf }

def Store.exec (S : Store) : Op → Store
  | .erase block => fun p ↦ if p / pages_per_block = block then some .blank else S p
  | .write_page page buf oob => Function.update S page ((S page).map fun r ↦ r.add_page cell buf oob)
  | .write_oob page oob => Function.update S page ((S page).map fun r ↦ r.add_oob cell oob)
  | .read_page _ => S
  | .read_oob _ => S
  | .fail page _ => Function.update S page none

/-- The store after some calls on a chip of which nothing is known. -/
def stored (ops : List Op) : Store := ops.foldl (Store.exec cell pages_per_block) fun _ ↦ none

/-- A place in the codes of the page's steps. -/
def InCodes (l : Layout) (k x : Nat) : Prop := l.pos 0 ≤ x ∧ x < l.pos 0 + k * 4

/-- The main area of a page is written once until it is erased, and `write_oob` leaves the codes of the
page alone. -/
def Store.Allows (l : Layout) (k : Nat) (S : Store) : Op → Prop
  | .write_page page _ _ => ∀ r, S page = some r → r.data = none
  | .write_oob _ oob => ∀ x, InCodes l k x → oob x = 0xff
  | _ => True

/-- The page was programmed by one call, or has the mark of jffs2. -/
def Record.Readable (r : Record) : Prop := r.programs = 1 ∨ Marked r.oob

end Meaning

/-! ## The driver keeps to one kind of chip -/

section Kind

variable (eng : EccEngine)

@[simp] theorem write_buf_nand_type (s : State) (bytes : List Byte) :
    (write_buf s bytes).nand_type = s.nand_type := by
  unfold write_buf
  split
  · rfl
  · rfl

@[simp] theorem calculate_ecc_nand_type (s : State) :
    (s3c_nand_calculate_ecc eng s).2.nand_type = s.nand_type := by
  simp only [s3c_nand_calculate_ecc]
  split
  · rfl
  · rfl

@[simp] theorem correct_data_nand_type (s : State) (dat : Mem Byte) (p : Option Nat)
    (read_ecc : Nat → Byte) :
    (s3c_nand_correct_data eng s dat p read_ecc).2.2.nand_type = s.nand_type := by
  cases p with
  | none => rfl
  | some p =>
    simp only [s3c_nand_correct_data, write_eccdata]
    split
    · rfl
    · rfl

@[simp] theorem count_failure_nand_type (s : State) (stat : Int) :
    (count_failure s stat).nand_type = s.nand_type := by
  unfold count_failure
  split
  · rfl
  · rfl

theorem encode_steps_nand_type (eccsize eccbytes eccsteps i p : Nat) (s : State) :
    (encode_steps eng eccsize eccbytes eccsteps i p s).nand_type = s.nand_type := by
  induction eccsteps generalizing i p s with
  | zero => rfl
  | succ n ih =>
    rw [encode_steps, ih]
    simp [s3c_nand_enable_hwecc]

theorem write_spare_1bit_nand_type (mtd : Mtd) (s : State) :
    (write_spare_1bit eng mtd s).nand_type = s.nand_type := by
  simp [write_spare_1bit, s3c_nand_enable_hwecc]

theorem fetch_spare_1bit_nand_type (mtd : Mtd) (s : State) :
    (fetch_spare_1bit eng mtd s).nand_type = s.nand_type := by
  simp [fetch_spare_1bit, s3c_nand_enable_hwecc, read_buf, cmdfunc]

theorem check_spare_1bit_nand_type (secc_start : Nat) (s : State) :
    (check_spare_1bit eng secc_start s).nand_type = s.nand_type := by
  unfold check_spare_1bit
  split
  · have h := correct_data_nand_type eng s s.oob_poi (some 0) fun j ↦ s.oob_poi (secc_start + j)
    exact h
  · rfl

theorem decode_steps_1bit_nand_type (mtd : Mtd) (eccsteps i p col : Nat) (s : State) :
    (decode_steps_1bit eng mtd eccsteps i p col s).nand_type = s.nand_type := by
  induction eccsteps generalizing i p col s with
  | zero => rfl
  | succ n ih =>
    rw [decode_steps_1bit, ih]
    simp [decode_step_1bit, s3c_nand_enable_hwecc, read_buf, cmdfunc]

theorem Flash.exec_nand_type (cell : Cell) (mtd : Mtd) (pages_per_block : Nat) (c : Flash) (op : Op) :
    (c.exec eng cell mtd pages_per_block op).driver.nand_type = c.driver.nand_type := by
  cases op with
  | erase => rfl
  | fail => rfl
  | write_page page buf oob =>
    show (page_register eng mtd c.driver buf oob).nand_type = _
    rw [page_register, s3c_nand_write_page_1bit, write_spare_1bit_nand_type]
    exact encode_steps_nand_type ..
  | write_oob page oob => exact write_spare_1bit_nand_type eng mtd _
  | read_page page =>
    show (c.read_page eng mtd page).nand_type = _
    rw [Flash.read_page, s3c_nand_read_page_1bit, decode_steps_1bit_nand_type,
      check_spare_1bit_nand_type, fetch_spare_1bit_nand_type]
    rfl
  | read_oob page =>
    show (c.read_oob eng mtd page).nand_type = _
    rw [Flash.read_oob, read_oob_1bit_eq, check_spare_1bit_nand_type, fetch_spare_1bit_nand_type]

end Kind

/-! ## What a page holds -/

section Pages

variable (eng : EccEngine) (cell : Cell) (l : Layout) (k oobsize : Nat)

/-- The data and its codes, as far as they have been written. -/
def MainHolds (data : Option (Mem Byte)) (cells : Mem Byte) : Prop :=
  match data with
  | none => (∀ a < 512 * k, cells a = 0xff) ∧ ∀ x, InCodes l k x → cells (512 * k + x) = 0xff
  | some buf => cells.load 0 (512 * k) = buf.load 0 (512 * k) ∧
      cells.load (512 * k + l.pos 0) (k * 4) = codes eng .slc (chunks buf 512 k 0)

/-- A page whose contents are those that `r` says.  The code of the OOB area fits while there was one call
only. -/
structure Holds (r : Record) (cells : Mem Byte) : Prop where
  main : MainHolds eng l k r.data cells
  oob : ∀ x < oobsize - 4, ¬InCodes l k x → cells (512 * k + x) = r.oob x
  unused : r.programs = 0 → ∀ a, cells a = 0xff
  spare : r.programs = 1 → cells.load (512 * k + (oobsize - 4)) 4 =
    eng.code .slc (cells.load (512 * k) (oobsize - 4))

variable {eng cell l k oobsize}

theorem holds_blank : Holds eng l k oobsize .blank fun _ ↦ 0xff where
  main := ⟨fun _ _ ↦ rfl, fun _ _ ↦ rfl⟩
  oob _ _ _ := rfl
  unused _ _ := rfl
  spare h := absurd h (by decide)

/-- Programming what `write_page` puts into the register. -/
theorem Holds.add_page {r : Record} {cells reg buf oob : Mem Byte} (h : Holds eng l k oobsize r cells)
    (hr : r.data = none) (hw : Written eng .bit1 l k oobsize buf oob reg) :
    Holds eng l k oobsize (r.add_page cell buf oob) fun a ↦ cell.program (cells a) (reg a) := by
  obtain ⟨hmain, hcodes⟩ : MainHolds eng l k none cells := hr ▸ h.main
  constructor
  case main =>
    constructor
    · rw [← hw.page]
      refine Mem.load_congr fun i hi ↦ ?_
      rw [hmain _ (by omega), cell.fresh]
    · refine Eq.trans (Mem.load_congr fun i hi ↦ ?_) hw.main
      have hin : InCodes l k (l.pos 0 + i) := ⟨by omega, by omega⟩
      rw [Nat.add_assoc, hcodes _ hin, cell.fresh]
  case oob =>
    intro x hx hout
    have hkept := hw.kept x hx (by unfold InCodes at hout; show _ ∨ l.pos 0 + k * 4 ≤ x; omega)
    show cell.program _ _ = cell.program _ _
    rw [h.oob x hx hout, hkept]
  case unused => exact fun h0 ↦ absurd h0 (Nat.succ_ne_zero _)
  case spare =>
    intro h1
    have hblank := h.unused (Nat.succ.inj h1)
    have hreg : (fun a ↦ cell.program (cells a) (reg a)) = reg := by
      funext a
      rw [hblank, cell.fresh]
    rw [hreg]
    exact hw.spare rfl

/-- Programming what `write_oob` puts into the register. -/
theorem Holds.add_oob {r : Record} {cells oob : Mem Byte} (h : Holds eng l k oobsize r cells)
    (hroom : l.pos 0 + k * 4 ≤ oobsize - 4) (h4 : 4 ≤ oobsize) (hff : ∀ x, InCodes l k x → oob x = 0xff) :
    let reg := Mem.store (fun _ ↦ 0xff) (512 * k)
      ((oob.store (oobsize - 4) (eng.code .slc (oob.load 0 (oobsize - 4)))).load 0 oobsize)
    Holds eng l k oobsize (r.add_oob cell oob) fun a ↦ cell.program (cells a) (reg a) := by
  intro reg
  have hlen : (eng.code .slc (oob.load 0 (oobsize - 4))).length = 4 := code_length eng .bit1 _
  have hlow : ∀ a < 512 * k, reg a = 0xff := fun a ha ↦ Mem.store_below _ _ _ _ ha
  have hoob : ∀ x < oobsize - 4, reg (512 * k + x) = oob x := by
    intro x hx
    show Mem.store _ _ _ _ = _
    rw [Mem.store_load_inside _ _ _ _ _ _ (by omega), Nat.zero_add, Mem.store_below _ _ _ _ hx]
  have hin : ∀ x, InCodes l k x → reg (512 * k + x) = 0xff := by
    intro x hx
    rw [hoob x (by unfold InCodes at hx; omega), hff x hx]
  constructor
  case main =>
    have hcell := h.main
    show MainHolds eng l k r.data _
    cases hd : r.data with
    | none =>
      rw [hd] at hcell
      constructor
      · intro a ha
        show cell.program _ _ = _
        rw [hcell.1 a ha, hlow a ha, cell.keep]
      · intro x hx
        show cell.program _ _ = _
        rw [hcell.2 x hx, hin x hx, cell.keep]
    | some buf =>
      rw [hd] at hcell
      constructor
      · refine Eq.trans (Mem.load_congr fun i hi ↦ ?_) hcell.1
        rw [hlow _ (by omega), cell.keep]
      · refine Eq.trans (Mem.load_congr fun i hi ↦ ?_) hcell.2
        rw [Nat.add_assoc, hin _ ⟨by omega, by omega⟩, cell.keep]
  case oob =>
    intro x hx hout
    show cell.program _ _ = cell.program _ _
    rw [h.oob x hx hout, hoob x hx]
  case unused => exact fun h0 ↦ absurd h0 (Nat.succ_ne_zero _)
  case spare =>
    intro h1
    have hblank := h.unused (Nat.succ.inj h1)
    have hreg : (fun a ↦ cell.program (cells a) (reg a)) = reg := by
      funext a
      rw [hblank, cell.fresh]
    rw [hreg, load_front _ _ _ _ _ _ (by omega), Mem.load_store_load _ _ _ _ _ _ _ (by omega), Nat.zero_add]
    exact Mem.load_store_same_of_eq _ _ _ _ hlen

/-! ## Reading -/

/-- Nothing is corrected in the OOB area of a page that can be read. -/
theorem Holds.sound {r : Record} {cells : Mem Byte} (h : Holds eng l k oobsize r cells)
    (hr : r.Readable) (h3 : 3 < l.pos 0) (hroom : l.pos 0 + k * 4 ≤ oobsize - 4) :
    SpareSound eng k oobsize cells := by
  rcases hr with hone | ⟨h85, h19⟩
  · exact Or.inl (h.spare hone)
  · have hmark : ∀ x < 4, cells (512 * k + x) = r.oob x := fun x hx ↦
      h.oob x (by omega) (by unfold InCodes; omega)
    exact Or.inr ⟨(hmark 2 (by omega)).trans h85, (hmark 3 (by omega)).trans h19⟩

/-- The OOB bytes outside of the codes, in a copy of the OOB area. -/
theorem Holds.copied {r : Record} {cells dst : Mem Byte} (h : Holds eng l k oobsize r cells) {x : Nat}
    (hx : x < oobsize - 4) (hout : ¬InCodes l k x) :
    dst.store 0 (cells.load (512 * k) oobsize) x = r.oob x := by
  have hin := Mem.store_load_inside dst cells 0 (512 * k) oobsize x (by omega)
  rw [Nat.zero_add] at hin
  rw [hin, h.oob x hx hout]

theorem Holds.codes_eq {r : Record} {cells buf : Mem Byte} (h : Holds eng l k oobsize r cells)
    (hbuf : r.data = some buf) : cells.load 0 (512 * k) = buf.load 0 (512 * k) ∧
      cells.load (512 * k + l.pos 0) (k * 4) = codes eng .slc (chunks cells 512 k 0) := by
  obtain ⟨hload, hcodes⟩ : MainHolds eng l k (some buf) cells := hbuf ▸ h.main
  refine ⟨hload, ?_⟩
  rw [hcodes]
  exact congrArg _ (chunks_congr (by rw [Nat.mul_comm k 512, hload]))

end Pages

/-! ## Runs -/

section Runs

variable (eng : EccEngine) (cell : Cell) (pages_per_block : Nat) {l : Layout} {k oobsize : Nat}

/-- What is known of each page is what the page holds. -/
structure Refines (l : Layout) (k oobsize : Nat) (S : Store) (c : Flash) : Prop where
  slc : c.driver.nand_type = .slc
  pages : ∀ p r, S p = some r → Holds eng l k oobsize r (c.pages p)

/-- What is known of a page after programming it, when nothing is known of what happens to another. -/
theorem holds_update {S : Store} {pages : Nat → Mem Byte} {page : Nat} {f : Record → Record}
    {cells : Mem Byte} (h : ∀ p r, S p = some r → Holds eng l k oobsize r (pages p))
    (hpage : ∀ r, S page = some r → Holds eng l k oobsize (f r) cells) (p : Nat) (r : Record)
    (hr : Function.update S page ((S page).map f) p = some r) :
    Holds eng l k oobsize r (Function.update pages page cells p) := by
  by_cases hp : p = page
  · subst hp
    rw [Function.update_self] at hr ⊢
    obtain ⟨r', hr', rfl⟩ := Option.map_eq_some_iff.mp hr
    exact hpage r' hr'
  · rw [Function.update_of_ne hp] at hr ⊢
    exact h p r hr

theorem Refines.exec (hl : l.Contiguous) (hfit : k * 4 ≤ l.eccbytes)
    (hroom : l.pos 0 + k * 4 ≤ oobsize - 4) (h4 : 4 ≤ oobsize) {S : Store} {c : Flash} {op : Op}
    (h : Refines eng l k oobsize S c) (ha : S.Allows l k op) :
    Refines eng l k oobsize (S.exec cell pages_per_block op)
      (c.exec eng cell (Format.bit1.mtd l k oobsize) pages_per_block op) := by
  refine ⟨(Flash.exec_nand_type ..).trans h.slc, ?_⟩
  cases op with
  | erase block =>
    intro p r hr
    simp only [Store.exec] at hr
    show Holds _ _ _ _ _ (if _ then _ else _)
    split at hr
    · next hb =>
      obtain rfl := Option.some.inj hr
      rw [if_pos hb]
      exact holds_blank
    · next hb =>
      rw [if_neg hb]
      exact h.pages p r hr
  | write_page page buf oob =>
    have hw := (write_page_written eng .bit1 hl hfit hroom h4
      { blank_register c.driver with buf := buf, oob_poi := oob } h.slc).1
    exact holds_update eng h.pages fun r hr ↦ (h.pages page r hr).add_page (ha r hr) hw
  | write_oob page oob =>
    have hcells := write_oob_1bit_cells eng (l := l) (k := k) h4 false
      { blank_register c.driver with oob_poi := oob } h.slc
    refine holds_update eng h.pages fun r hr ↦ ?_
    have hadd := @Holds.add_oob eng cell l k oobsize r _ oob (h.pages page r hr) hroom h4 ha
    simp only [oob_register, hcells]
    exact hadd
  | read_page => exact h.pages
  | read_oob => exact h.pages
  | fail page cells =>
    intro p r hr
    simp only [Store.exec] at hr
    by_cases hp : p = page
    · rw [hp, Function.update_self] at hr
      cases hr
    · rw [Function.update_of_ne hp] at hr
      show Holds _ _ _ _ _ (Function.update c.pages page cells p)
      rw [Function.update_of_ne hp]
      exact h.pages p r hr

/-- Runs in which every call is one that the store allows. -/
def StoreRun (mtd : Mtd) (c₀ : Flash) : List Op → Flash → Prop :=
  GuardedRun (Flash.Step eng cell mtd pages_per_block)
    (fun ops _ op ↦ (stored cell pages_per_block ops).Allows mtd.ecc.layout mtd.ecc.steps op) c₀

theorem StoreRun.refines (hl : l.Contiguous) (hfit : k * 4 ≤ l.eccbytes)
    (hroom : l.pos 0 + k * 4 ≤ oobsize - 4) (h4 : 4 ≤ oobsize) {c₀ c : Flash} {ops : List Op}
    (h₀ : c₀.driver.nand_type = .slc)
    (h : StoreRun eng cell pages_per_block (Format.bit1.mtd l k oobsize) c₀ ops c) :
    Refines eng l k oobsize (stored cell pages_per_block ops) c := by
  have hsteps := @mtd_steps .bit1 l k oobsize
  refine h.invariant (fun ops c ↦ Refines eng l k oobsize (stored cell pages_per_block ops) c)
    ⟨h₀, fun _ _ hr ↦ by cases hr⟩ ?_
  intro ops c op c' hi hstep hallow
  rw [hsteps] at hallow
  obtain rfl : c' = _ := hstep
  rw [stored, List.foldl_append]
  exact hi.exec eng cell pages_per_block hl hfit hroom h4 hallow

end Runs

/-- An SLC chip with large pages is a store of pages.  In any sequence of calls that writes the main area
of a page once between two erasures, and leaves the codes alone when it writes OOB bytes, a page that was
programmed by a single call or that has the mark of jffs2 is read as it was written, and no failure is
counted. -/
theorem chip_stores_pages (eng : EccEngine) (cell : Cell) (pages_per_block : Nat) {k oobsize : Nat}
    (hk : k ≤ 4) (hoob : 44 + k * 4 ≤ oobsize) {c₀ c : Flash} {ops : List Op}
    (h₀ : c₀.driver.nand_type = .slc)
    (h : StoreRun eng cell pages_per_block (Format.bit1.mtd s3c_nand_oob_64 k oobsize) c₀ ops c)
    {page : Nat} {r : Record} (hr : stored cell pages_per_block ops page = some r) (hread : r.Readable) :
    let mtd := Format.bit1.mtd s3c_nand_oob_64 k oobsize
    (∀ buf, r.data = some buf →
      (c.read_page eng mtd page).buf.load 0 (512 * k) = buf.load 0 (512 * k) ∧
        (c.read_page eng mtd page).failed = c.driver.failed ∧
        ∀ x < oobsize - 4, ¬InCodes s3c_nand_oob_64 k x →
          (c.read_page eng mtd page).oob_poi x = r.oob x) ∧
      ∀ x < oobsize - 4, ¬InCodes s3c_nand_oob_64 k x → (c.read_oob eng mtd page).oob_poi x = r.oob x := by
  intro mtd
  have hpos : s3c_nand_oob_64.pos 0 = 40 := rfl
  have hroom : s3c_nand_oob_64.pos 0 + k * 4 ≤ oobsize - 4 := by omega
  have hfit : k * 4 ≤ s3c_nand_oob_64.eccbytes := by show k * 4 ≤ 16; omega
  have hl : s3c_nand_oob_64.Contiguous := 
    contiguous_of_mem (@mem_layouts .bit1 _ (List.mem_cons_of_mem _ List.mem_cons_self))
  have hrefines := h.refines eng cell pages_per_block hl hfit hroom (by omega) h₀
  have hholds := hrefines.pages page r hr
  have hsound := hholds.sound hread (by omega) hroom
  constructor
  · intro buf hbuf
    obtain ⟨hload, hcodes⟩ := hholds.codes_eq hbuf
    obtain ⟨htbuf, hfailed, htoob⟩ := read_page_1bit_sound eng (l := s3c_nand_oob_64) (by omega) (by omega)
      (cmdfunc { c.driver with cells := c.pages page } .read0 0) hrefines.slc hsound hcodes
    refine ⟨?_, hfailed, fun x hx hout ↦ ?_⟩
    · rw [← hload]
      exact (congrArg (Mem.load · 0 (512 * k)) htbuf).trans
        (Mem.load_store_same_of_eq _ _ _ _ (Mem.load_length ..))
    · exact (congrFun htoob x).trans (hholds.copied hx hout)
  · intro x hx hout
    have htoob := read_oob_1bit_sound eng (l := s3c_nand_oob_64) (by omega)
      { c.driver with cells := c.pages page } hrefines.slc hsound
    exact (congrFun htoob x).trans (hholds.copied hx hout)

-- Programming clears bits.
def and_cell : Cell where
  program a b := a &&& b
  fresh _ := BitVec.allOnes_and
  keep _ := BitVec.and_allOnes

-- The OOB bytes of a clean marker.
def cleanmarker : Mem Byte := fun x ↦ if x = 2 then 0x85 else if x = 3 then 0x19 else 0xff

-- A page of 2048 bytes is written behind the clean marker of its block.
theorem chip_stores_pages_cleanmarker :
    let mtd := Format.bit1.mtd s3c_nand_oob_64 4 64
    let c₀ : Flash := ⟨fun _ _ ↦ 0, { booted (fun _ ↦ 0) with nand_type := .slc }⟩
    let buf : Mem Byte := fun i ↦ BitVec.ofNat 8 i
    let c := [.erase 0, .write_oob 0 cleanmarker, .write_page 0 buf fun _ ↦ 0xff].foldl
      (Flash.exec checksum_engine and_cell mtd 64) c₀
    (c.read_page checksum_engine mtd 0).buf.load 0 2048 = buf.load 0 2048 := by
  intro mtd c₀ buf c
  have hmark : Store.Allows mtd.ecc.layout mtd.ecc.steps (stored and_cell 64 [.erase 0])
      (.write_oob 0 cleanmarker) := by
    intro x hx
    have h40 : 40 ≤ x := hx.1
    rw [cleanmarker, if_neg (by omega), if_neg (by omega)]
  have hpage : Store.Allows mtd.ecc.layout mtd.ecc.steps
      (stored and_cell 64 [.erase 0, .write_oob 0 cleanmarker]) (.write_page 0 buf fun _ ↦ 0xff) := by
    intro r hr
    obtain rfl := Option.some.inj hr
    rfl
  have hrun : StoreRun checksum_engine and_cell 64 mtd c₀
      [.erase 0, .write_oob 0 cleanmarker, .write_page 0 buf fun _ ↦ 0xff] c :=
    .snoc (.snoc (.snoc .nil rfl trivial) rfl hmark) rfl hpage
  exact ((chip_stores_pages checksum_engine and_cell 64 (by omega) (by omega) rfl hrun rfl
    (Or.inr ⟨by decide, by decide⟩)).1 buf rfl).1

end OK210Drivers.Nand
