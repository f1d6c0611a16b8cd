import OK210Drivers.Nand.Detect

/-!
# The outcome of the NAND probe

What `s3c_nand_probe` acquires, what it returns and what it leaves behind.  The failing acquisitions record
their error in `err`, but it is `ret` that is returned, and `exit_error` frees the MTD memory only.
-/

namespace OK210Drivers.Nand

def ENXIO : Int := 6
def ENOMEM : Int := 12

/-- What the probe holds: the clock, the memory region, the mapping and the memory behind `s3c_mtd`, and
how often it has registered an MTD device there. -/
structure Held where
  clk : Bool
  area : Bool
  regs : Bool
  mtd : Bool
  registered : Nat

/-- A chip of the platform set: its ID bytes, and what `nand_scan` makes of the settings, if it succeeds. -/
structure Chip where
  id : IdBytes
  nand_scan : Settings → Option Settings

/-- What the probe meets: whether `clk_get`, `request_mem_region`, `ioremap` and `kmalloc` succeed, the
chips of the set, `nand_flash_ids` and the earlier value of `nand_type`. -/
structure Board where
  clk_get : Bool
  request_mem_region : Bool
  ioremap : Bool
  kmalloc : Bool
  chips : List Chip
  nand_flash_ids : List NandFlashDev
  nand_type : NandType

/-- `kfree(s3c_mtd)`, which is null before `kmalloc`, and `return ret`. -/
def exit_error (ret : Int) (h : Held) : Int × Held := (ret, { h with mtd := false })

/-- The loop over the chips, with the `type` and the settings of the chips before. -/
def probe_chips (nand_flash_ids : List NandFlashDev) :
    List Chip → Option NandFlashDev → Settings → Held → Int × Held
  | [], _, _, h => (0, h)
  | chip :: chips, type, s, h =>
    match detect nand_flash_ids chip.id type s with
    | none => exit_error 0 h
    | some (d, s) =>
      match chip.nand_scan s with
      | none => exit_error (- ENXIO) h
      | some s => probe_chips nand_flash_ids chips (some d) s { h with registered := h.registered + 1 }

def s3c_nand_probe (b : Board) : Int × Held :=
  let h : Held := ⟨false, false, false, false, 0⟩
  if b.clk_get = false then
    -- `err = -ENOENT`, while `ret` is 0
    exit_error 0 h
  else
    let h := { h with clk := true }
    if b.request_mem_region = false then exit_error 0 h
    else
      let h := { h with area := true }
      if b.ioremap = false then exit_error 0 h
      else
        let h := { h with regs := true }
        if b.kmalloc = false then (-ENOMEM, h)
        else
          let h := { h with mtd := true }
          probe_chips b.nand_flash_ids b.chips none (cleared b.nand_type) h

/-- Nothing is held, and no registered device points to memory that has been freed. -/
def Held.Released (h : Held) : Prop :=
  h.clk = false ∧ h.area = false ∧ h.regs = false ∧ h.mtd = false ∧ h.registered = 0

/-- The probe returns 0 only with every chip scanned and registered, and otherwise a negative error with
everything released. -/
def Truthful (b : Board) : Prop :=
  if (s3c_nand_probe b).1 = 0 then
    (s3c_nand_probe b).2.registered = b.chips.length ∧
      (b.chips ≠ [] → (s3c_nand_probe b).2.mtd = true)
  else (s3c_nand_probe b).1 < 0 ∧ (s3c_nand_probe b).2.Released

/-- Every chip is identified and `nand_scan` succeeds on it. -/
def ChipsSucceed (nand_flash_ids : List NandFlashDev) :
    List Chip → Option NandFlashDev → Settings → Prop
  | [], _, _ => True
  | chip :: chips, type, s => ∃ d t u, detect nand_flash_ids chip.id type s = some (d, t) ∧
    chip.nand_scan t = some u ∧ ChipsSucceed nand_flash_ids chips (some d) u

section Probe

variable {nand_flash_ids : List NandFlashDev}

/-- The loop returns 0 with all chips registered when all of them succeed, and else leaves with fewer
registered, the MTD memory freed and the rest held. -/
theorem probe_chips_cases (chips : List Chip) (type : Option NandFlashDev) (s : Settings) (h : Held) :
    (ChipsSucceed nand_flash_ids chips type s ∧ probe_chips nand_flash_ids chips type s h =
      (0, { h with registered := h.registered + chips.length })) ∨
    ¬ChipsSucceed nand_flash_ids chips type s ∧ ∃ ret n, n < chips.length ∧
      probe_chips nand_flash_ids chips type s h =
        (ret, { h with mtd := false, registered := h.registered + n }) := by
  induction chips generalizing type s h with
  | nil => exact Or.inl ⟨trivial, rfl⟩
  | cons chip chips ih =>
    have hpos : 0 < (chip :: chips).length := Nat.succ_pos _
    unfold probe_chips ChipsSucceed
    cases hdet : detect nand_flash_ids chip.id type s with
    | none =>
      refine Or.inr ⟨?_, 0, 0, hpos, rfl⟩
      rintro ⟨d, t, u, hsome, _⟩
      cases hsome
    | some r =>
      obtain ⟨d, t⟩ := r
      dsimp only
      cases hscan : chip.nand_scan t with
      | none =>
        refine Or.inr ⟨?_, - ENXIO, 0, hpos, rfl⟩
        rintro ⟨d', t', u, hsome, hscan', _⟩
        cases hsome
        rw [hscan] at hscan'
        cases hscan'
      | some u =>
        dsimp only
        rcases ih (some d) u { h with registered := h.registered + 1 } with ⟨hok, heq⟩ | ⟨hno, ret, n, hn, heq⟩
        · refine Or.inl ⟨⟨d, t, u, rfl, hscan, hok⟩, ?_⟩
          rw [heq, List.length_cons, Nat.add_assoc, Nat.add_comm 1]
        · refine Or.inr ⟨?_, ret, n + 1, Nat.succ_lt_succ hn, ?_⟩
          · rintro ⟨d', t', u', hsome, hscan', hok⟩
            cases hsome
            rw [hscan] at hscan'
            cases hscan'
            exact hno hok
          · rw [heq, Nat.add_assoc, Nat.add_comm 1]

theorem s3c_nand_probe_early {b : Board}
    (hno : ¬(b.clk_get = true ∧ b.request_mem_region = true ∧ b.ioremap = true)) :
    ∃ h, s3c_nand_probe b = (0, h) ∧ h.registered = 0 := by
  unfold s3c_nand_probe
  by_cases hclk : b.clk_get = false
  · rw [if_pos hclk]
    exact ⟨_, rfl, rfl⟩
  rw [if_neg hclk]
  by_cases harea : b.request_mem_region = false
  · simp only [if_pos harea]
    exact ⟨_, rfl, rfl⟩
  simp only [if_neg harea]
  by_cases hregs : b.ioremap = false
  · simp only [if_pos hregs]
    exact ⟨_, rfl, rfl⟩
  rw [Bool.not_eq_false] at hclk harea hregs
  exact absurd ⟨hclk, harea, hregs⟩ hno

theorem s3c_nand_probe_late {b : Board}
    (hyes : b.clk_get = true ∧ b.request_mem_region = true ∧ b.ioremap = true) :
    s3c_nand_probe b = if b.kmalloc = false then (-ENOMEM, ⟨true, true, true, false, 0⟩)
      else probe_chips b.nand_flash_ids b.chips none (cleared b.nand_type) ⟨true, true, true, true, 0⟩ := by
  unfold s3c_nand_probe
  simp only [hyes.1, hyes.2.1, hyes.2.2, if_neg (by decide : ¬true = false)]

/-- The probe tells the truth exactly when everything that it does succeeds, or there is no chip and it
fails before `kmalloc`. -/
theorem truthful_iff (b : Board) : Truthful b ↔
    (b.clk_get = true ∧ b.request_mem_region = true ∧ b.ioremap = true ∧ b.kmalloc = true ∧
      ChipsSucceed b.nand_flash_ids b.chips none (cleared b.nand_type)) ∨
    (b.chips = [] ∧ ¬(b.clk_get = true ∧ b.request_mem_region = true ∧ b.ioremap = true)) := by
  unfold Truthful
  by_cases hacq : b.clk_get = true ∧ b.request_mem_region = true ∧ b.ioremap = true
  · rw [s3c_nand_probe_late hacq]
    by_cases hmem : b.kmalloc = false
    · -- the clock, the region and the mapping are still held
      rw [if_pos hmem, if_neg (by decide : ¬-ENOMEM = 0)]
      refine iff_of_false (fun h ↦ absurd h.2.1 (by decide : ¬true = false)) ?_
      rintro (⟨_, _, _, hm, _⟩ | ⟨_, hno⟩)
      · rw [hmem] at hm
        cases hm
      · exact hno hacq
    rw [if_neg hmem]
    rw [Bool.not_eq_false] at hmem
    rcases probe_chips_cases b.chips none (cleared b.nand_type) ⟨true, true, true, true, 0⟩ with
      ⟨hok, heq⟩ | ⟨hno, ret, n, hn, heq⟩
    · rw [heq, if_pos rfl]
      exact iff_of_true ⟨Nat.zero_add _, fun _ ↦ rfl⟩ (Or.inl ⟨hacq.1, hacq.2.1, hacq.2.2, hmem, hok⟩)
    · rw [heq]
      refine iff_of_false (fun h ↦ ?_) ?_
      · by_cases hret : ret = 0
        · rw [if_pos hret] at h
          have hreg : 0 + n = b.chips.length := h.1
          omega
        · rw [if_neg hret] at h
          exact absurd h.2.1 (by decide : ¬true = false)
      · rintro (⟨_, _, _, _, hok⟩ | ⟨_, hnot⟩)
        · exact hno hok
        · exact hnot hacq
  · obtain ⟨h, heq, hreg⟩ := s3c_nand_probe_early hacq
    rw [heq, if_pos rfl, hreg]
    constructor
    · rintro ⟨hlen, _⟩
      exact Or.inr ⟨List.length_eq_zero_iff.mp hlen.symm, hacq⟩
    · rintro (⟨hclk, harea, hregs, _⟩ | ⟨hnil, _⟩)
      · exact absurd ⟨hclk, harea, hregs⟩ hacq
      · rw [hnil]
        exact ⟨rfl, fun hne ↦ absurd rfl hne⟩

end Probe

/-- Without the clock the probe of a board with one chip returns 0; and when `nand_scan` fails on the
second chip, the first one's device stays registered in memory that has been freed. -/
theorem probe_outcomes_untrue :
    let table : List NandFlashDev := [⟨0xda, 0⟩]
    let id : IdBytes := ⟨0xec, 0xda, 0x10, 0x95⟩
    (∃ b : Board, b.clk_get = false ∧ b.chips.length = 1 ∧ (s3c_nand_probe b).1 = 0 ∧ ¬Truthful b) ∧
    ∃ b : Board, b.nand_flash_ids = table ∧ b.chips = [⟨id, some⟩, ⟨id, fun _ ↦ none⟩] ∧
      s3c_nand_probe b = (- ENXIO, ⟨true, true, true, false, 1⟩) ∧ ¬Truthful b := by
  intro table id
  constructor
  · let b : Board := ⟨false, true, true, true, [⟨id, some⟩], table, .unknown⟩
    refine ⟨b, rfl, rfl, rfl, fun h ↦ ?_⟩
    have hreg : 0 = 1 := h.1
    cases hreg
  · let b : Board := ⟨true, true, true, true, [⟨id, some⟩, ⟨id, fun _ ↦ none⟩], table, .unknown⟩
    have heq : s3c_nand_probe b = (- ENXIO, ⟨true, true, true, false, 1⟩) := rfl
    refine ⟨b, rfl, rfl, heq, fun h ↦ ?_⟩
    have hheld : true = false := h.2.1
    cases hheld

end OK210Drivers.Nand
