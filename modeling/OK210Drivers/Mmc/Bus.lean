import OK210Drivers.Library.Runs
import OK210Drivers.Mmc.ClockSource

/-!
# The registers between two resets

A reset of the controller takes the clock source that the driver has selected, and the 8-bit mode.  The clock
source comes back with the next `sdhci_s3c_set_ios`; the 8-bit mode, once it is set, stays until a reset.  The
board's `cfg_card` gets the address of the registers and may write to them.
-/

open Library

namespace OK210Drivers.Mmc

inductive BusWidth
  | MMC_BUS_WIDTH_1
  | MMC_BUS_WIDTH_4
  | MMC_BUS_WIDTH_8
  deriving DecidableEq

/-- `bus_width` is none for a number that is no width. -/
structure MmcIos where
  clock : BitVec 32
  power_off : Bool
  bus_width : Option BusWidth

/-- The `ios` that `cfg_card` is called with; that of `sdhci_s3c_set_clock` has the clock only. -/
inductive CardIos
  | set_ios (ios : MmcIos)
  | set_clock (clock : BitVec 32)

/-- The registers behind `ioaddr`. -/
structure Regs where
  clock_control : BitVec 16
  control2 : BitVec 32
  host_control : BitVec 8

/-- What is not in the repository: whether the board has `cfg_gpio`, and what a call of `cfg_card` may do to
the registers. -/
structure Board where
  platform : Platform
  CTRL_8BITBUS : BitVec 8
  cfg_gpio : Bool
  cfg_card : CardIos → (Regs → Regs) → Prop

/-- The driver's data with the register `HOST_CONTROL`, and the widths that `cfg_gpio` was called for. -/
structure Bus where
  host : Host
  host_control : BitVec 8
  gpio : List Nat

def Bus.regs (s : Bus) : Regs := ⟨s.host.clock_control, s.host.control2, s.host_control⟩

def Bus.setRegs (s : Bus) (r : Regs) : Bus :=
  { s with
    host := { s.host with clock_control := r.clock_control, control2 := r.control2 }
    host_control := r.host_control }

def cfg_gpio (b : Board) (width : Nat) (s : Bus) : Bus :=
  if b.cfg_gpio = true then { s with gpio := s.gpio ++ [width] } else s

-- The call is recorded, and `card` is what it does to the registers.
def cfg_card (card : Regs → Regs) (ios : MmcIos) (s : Bus) : Bus :=
  if s.host.cfg_card = true then
    let s := { s with host := { s.host with configured := s.host.configured ++ [ios.clock] } }
    s.setRegs (card s.regs)
  else s

-- The branch of a card that has power; none is `BUG()`.
def set_width (b : Board) (bus_width : Option BusWidth) (s : Bus) : Option Bus :=
  match bus_width with
  | some .MMC_BUS_WIDTH_8 =>
    some (cfg_gpio b 8 { s with host_control := s.host_control ||| b.CTRL_8BITBUS })
  | some .MMC_BUS_WIDTH_4 => some (cfg_gpio b 4 s)
  | some .MMC_BUS_WIDTH_1 => some (cfg_gpio b 1 s)
  | none => none

def sdhci_s3c_set_ios (b : Board) (card : Regs → Regs) (ios : MmcIos) (s : Bus) : Option Bus :=
  let s := { s with host := sdhci_s3c_check_sclk b.platform s.host }
  if ios.power_off = true then some (cfg_card card ios s)
  else (set_width b ios.bus_width s).map (cfg_card card ios)

-- The last statement of `sdhci_s3c_set_clock` is the call of `cfg_card`, which comes for a clock only.
def set_clock_card (card : Regs → Regs) (clock : BitVec 32) (s : Bus) : Bus :=
  if clock ≠ 0 ∧ s.host.cfg_card = true then s.setRegs (card s.regs) else s

def set_clock (b : Board) (card : Regs → Regs) (clock : BitVec 32) (s : Bus) : Bus :=
  set_clock_card card clock { s with host := sdhci_s3c_set_clock b.platform clock s.host }

/-- `card` is what `cfg_card` has left in `CONTROL2`, if it was called. -/
inductive BusEvent
  | set_ios (ios : MmcIos) (card : Option (BitVec 32))
  | set_clock (clock : BitVec 32) (changed : Bool) (card : Option (BitVec 32))
  | get_max_clk
  | reset (control2 : BitVec 32)
  | core (host_control : BitVec 8)

/-- The source that `sdhci_s3c_set_clock` finds is another one. -/
def changes (h : Host) (clock : BitVec 32) : Bool :=
  decide (clock ≠ 0 ∧ h.cur_clk ≠ src_index (best_clock h.clk_bus clock).2)

/-- The calls of the driver, in any order; resets; and writes of the core, which keep the 8-bit mode. -/
inductive BusStep (b : Board) : Bus → BusEvent → Bus → Prop
  | set_ios {s s' : Bus} (ios : MmcIos) (card : Regs → Regs) (hcard : b.cfg_card (.set_ios ios) card)
      (h : sdhci_s3c_set_ios b card ios s = some s') :
      BusStep b s (.set_ios ios (if s.host.cfg_card = true then some s'.host.control2 else none)) s'
  | set_clock {s s' : Bus} (clock : BitVec 32) (card : Regs → Regs)
      (hcard : b.cfg_card (.set_clock clock) card) (h : set_clock b card clock s = s') :
      BusStep b s (.set_clock clock (changes s.host clock)
        (if clock ≠ 0 ∧ s.host.cfg_card = true then some s'.host.control2 else none)) s'
  | get_max_clk {s : Bus} : BusStep b s .get_max_clk
      { s with host := (sdhci_s3c_get_max_clk b.platform s.host).2 }
  | reset {s : Bus} (control2 : BitVec 32) : BusStep b s (.reset control2)
      { s with host := { s.host with control2 := control2 }, host_control := 0 }
  | core {s : Bus} (host_control : BitVec 8)
      (h : host_control &&& b.CTRL_8BITBUS = s.host_control &&& b.CTRL_8BITBUS) :
      BusStep b s (.core host_control) { s with host_control := host_control }

/-- The two bits of `CONTROL2` that select the clock. -/
def Platform.Selects (p : Platform) : Prop :=
  p.SELBASECLK_SHIFT + 2 ≤ 32 ∧ p.SELBASECLK_MASK = (3 : BitVec 32) <<< p.SELBASECLK_SHIFT

/-- `cfg_card` leaves the clock source and the 8-bit mode as they are; of the other bits it may make what it
wants. -/
def Board.CardKeeps (b : Board) : Prop :=
  ∀ ios card, b.cfg_card ios card → ∀ r : Regs,
    (card r).control2 &&& b.platform.SELBASECLK_MASK = r.control2 &&& b.platform.SELBASECLK_MASK ∧
      (card r).host_control &&& b.CTRL_8BITBUS = r.host_control &&& b.CTRL_8BITBUS

def BusEvent.reset? : BusEvent → Option (BitVec 32)
  | .reset control2 => some control2
  | _ => none

/-- What a reset or `cfg_card` has left in `CONTROL2`. -/
def BusEvent.written? : BusEvent → Option (BitVec 32)
  | .set_ios _ card => card
  | .set_clock _ _ card => card
  | .reset control2 => some control2
  | _ => none

def NoReset (e : BusEvent) : Prop := e.reset? = none

/-- The driver looks at the clock source, or selects another. -/
def Selected : BusEvent → Prop
  | .set_ios _ _ => True
  | .get_max_clk => True
  | .set_clock _ changed _ => changed = true
  | _ => False

/-- A card that has power gets eight lines. -/
def Widened : BusEvent → Prop
  | .set_ios ios _ => ios.power_off = false ∧ ios.bus_width = some .MMC_BUS_WIDTH_8
  | _ => False

section Select

variable {p : Platform} {c k : BitVec 32} {h : Host} {clock : BitVec 32}

theorem getLsbD_mask (hp : p.Selects) {i : Nat} (hi : i < 32) :
    p.SELBASECLK_MASK.getLsbD i = decide (p.SELBASECLK_SHIFT ≤ i ∧ i < p.SELBASECLK_SHIFT + 2) := by
  have hthree : ∀ j < 32, (3 : BitVec 32).getLsbD j = decide (j < 2) := by
    intro j hj
    show (BitVec.ofNat 32 3).getLsbD j = _
    rw [BitVec.getLsbD_ofNat, decide_eq_true hj, Bool.true_and]
    exact Nat.testBit_two_pow_sub_one 2 j
  rw [hp.2, BitVec.getLsbD_shiftLeft, hthree _ (by omega), decide_eq_true hi]
  by_cases hlt : i < p.SELBASECLK_SHIFT
  · simp [hlt]
  · have hiff : i - p.SELBASECLK_SHIFT < 2 ↔ p.SELBASECLK_SHIFT ≤ i ∧ i < p.SELBASECLK_SHIFT + 2 := by omega
    simp only [hlt, hiff]
    simp

theorem getLsbD_source (hk : k < 4) {i : Nat} (hi : 2 ≤ i) : k.getLsbD i = false := by
  have hlt : k.toNat < 4 := hk
  exact Nat.testBit_lt_two_pow (Nat.lt_of_lt_of_le hlt (Nat.pow_le_pow_right (n := 2) (by decide) hi))

/-- The source that is selected is the one that is read. -/
theorem get_select (hp : p.Selects) (hk : k < 4) : get_curclk p (select_baseclk p c k) = k := by
  apply BitVec.eq_of_getLsbD_eq
  intro i hi
  have hfit := hp.1
  unfold get_curclk select_baseclk
  rw [BitVec.getLsbD_ushiftRight, BitVec.getLsbD_and, BitVec.getLsbD_or, BitVec.getLsbD_and, BitVec.getLsbD_not,
    BitVec.getLsbD_shiftLeft]
  by_cases htwo : i < 2
  · have hin : p.SELBASECLK_SHIFT + i < 32 := by omega
    rw [getLsbD_mask hp hin]
    simp [htwo, hin]
  · rw [getLsbD_source hk (Nat.le_of_not_lt htwo)]
    by_cases hin : p.SELBASECLK_SHIFT + i < 32
    · rw [getLsbD_mask hp hin]
      simp [htwo]
    · rw [BitVec.getLsbD_of_ge p.SELBASECLK_MASK _ (by omega), Bool.and_false]

/-- And the other bits stay. -/
theorem select_frame (hp : p.Selects) (hk : k < 4) :
    select_baseclk p c k &&& ~~~p.SELBASECLK_MASK = c &&& ~~~p.SELBASECLK_MASK := by
  apply BitVec.eq_of_getLsbD_eq
  intro i hi
  unfold select_baseclk
  rw [BitVec.getLsbD_and, BitVec.getLsbD_and, BitVec.getLsbD_or, BitVec.getLsbD_and, BitVec.getLsbD_not,
    BitVec.getLsbD_shiftLeft, getLsbD_mask hp hi]
  by_cases hin : p.SELBASECLK_SHIFT ≤ i ∧ i < p.SELBASECLK_SHIFT + 2
  · simp [hin]
  · have hout : i < p.SELBASECLK_SHIFT ∨ k.getLsbD (i - p.SELBASECLK_SHIFT) = false := by
      by_cases hlt : i < p.SELBASECLK_SHIFT
      · exact Or.inl hlt
      · exact Or.inr (getLsbD_source hk (by omega))
    rcases hout with hout | hout <;> simp [hin, hout]

/-- The driver's source is selected, and the rest of the register is as it was in `c`. -/
structure InStep (p : Platform) (c : BitVec 32) (h : Host) : Prop where
  source : h.cur_clk < 4
  selected : get_curclk p h.control2 = h.cur_clk
  frame : h.control2 &&& ~~~p.SELBASECLK_MASK = c &&& ~~~p.SELBASECLK_MASK

theorem check_sclk_inStep (hp : p.Selects) (hk : h.cur_clk < 4) :
    InStep p h.control2 (sdhci_s3c_check_sclk p h) := by
  unfold sdhci_s3c_check_sclk
  split
  · exact ⟨hk, get_select hp hk, select_frame hp hk⟩
  next hsame => exact ⟨hk, not_not.mp hsame, rfl⟩

theorem src_index_lt (i : Fin MAX_BUS_CLK) : src_index i < 4 := by
  have hi : i.val < 4 := i.isLt
  show (BitVec.ofNat 32 i.val).toNat < 4
  rw [BitVec.toNat_ofNat]
  omega

theorem change_source_inStep (hp : p.Selects) (i : Fin MAX_BUS_CLK) :
    InStep p h.control2 (change_source p i h) := by
  have hcheck := check_sclk_inStep (p := p) (h := { h with
    clock_control := 0, cur_clk := src_index i, max_clk := clk_get_rate p (h.clk_bus i) }) hp (src_index_lt i)
  refine ⟨?_, ?_, ?_⟩
  · rw [change_source_cur_clk]
    exact src_index_lt i
  · rw [change_source_cur_clk]
    exact get_select hp (src_index_lt i)
  · exact (select_frame hp (src_index_lt i)).trans hcheck.frame

/-- `sdhci_s3c_set_clock` selects another source, or leaves the register alone. -/
theorem set_clock_register (hp : p.Selects) :
    (changes h clock = true → InStep p h.control2 (sdhci_s3c_set_clock p clock h)) ∧
      (changes h clock = false → (sdhci_s3c_set_clock p clock h).control2 = h.control2 ∧
        (sdhci_s3c_set_clock p clock h).cur_clk = h.cur_clk) := by
  unfold changes
  by_cases hzero : clock = 0
  · refine ⟨fun hyes ↦ absurd hzero (of_decide_eq_true hyes).1, fun _ ↦ ?_⟩
    unfold sdhci_s3c_set_clock
    rw [if_pos hzero]
    exact ⟨rfl, rfl⟩
  · unfold sdhci_s3c_set_clock
    rw [if_neg hzero]
    dsimp only
    by_cases hsame : h.cur_clk = src_index (best_clock h.clk_bus clock).2
    · refine ⟨fun hyes ↦ absurd hsame (of_decide_eq_true hyes).2, fun _ ↦ ?_⟩
      rw [if_neg (not_not.mpr hsame)]
      split
      · exact ⟨rfl, rfl⟩
      · exact ⟨rfl, rfl⟩
    · refine ⟨fun _ ↦ ?_, fun hno ↦ absurd ⟨hzero, hsame⟩ (of_decide_eq_false hno)⟩
      have hin := change_source_inStep (p := p) (h := h) hp (best_clock h.clk_bus clock).2
      rw [if_pos hsame]
      split
      · exact ⟨hin.source, hin.selected, hin.frame⟩
      · exact hin

end Select

section Runs

variable {b : Board} {es : List BusEvent} {e : BusEvent} {s s' : Bus} {v : BitVec 32} {ios : MmcIos}
  {clock : BitVec 32} {card : Regs → Regs} {c : Option (BitVec 32)}

/-- What `CONTROL2` was after the last reset, and after the last reset or call of `cfg_card`. -/
def resetTo (v : BitVec 32) (es : List BusEvent) : BitVec 32 := (lastSome BusEvent.reset? es).getD v

def writtenTo (v : BitVec 32) (es : List BusEvent) : BitVec 32 := (lastSome BusEvent.written? es).getD v

/-- What the two registers hold: the driver's source once the driver has looked at it since the last reset,
and that of the reset before; in the other bits what the last reset or call of `cfg_card` made of them; and
the 8-bit mode once a card has had it since the last reset. -/
structure Follows (b : Board) (v : BitVec 32) (es : List BusEvent) (s : Bus) : Prop where
  source : s.host.cur_clk < 4
  frame : s.host.control2 &&& ~~~b.platform.SELBASECLK_MASK =
    writtenTo v es &&& ~~~b.platform.SELBASECLK_MASK
  selected : Since Selected NoReset es → get_curclk b.platform s.host.control2 = s.host.cur_clk
  untouched : ¬Since Selected NoReset es →
    get_curclk b.platform s.host.control2 = get_curclk b.platform (resetTo v es)
  wide : Since Widened NoReset es → s.host_control &&& b.CTRL_8BITBUS = b.CTRL_8BITBUS
  narrow : ¬Since Widened NoReset es → s.host_control &&& b.CTRL_8BITBUS = 0

/-- What an event does to the other bits of `CONTROL2` is what its label says. -/
def Frames (b : Board) (e : BusEvent) (s s' : Bus) : Prop :=
  e.written? = some s'.host.control2 ∨ e.written? = none ∧
    s'.host.control2 &&& ~~~b.platform.SELBASECLK_MASK = s.host.control2 &&& ~~~b.platform.SELBASECLK_MASK

theorem resetTo_snoc (he : NoReset e) : resetTo v (es ++ [e]) = resetTo v es := by
  unfold resetTo
  rw [lastSome_snoc, he, Option.none_or]

theorem Follows.frame_snoc (hf : Follows b v es s) (h : Frames b e s s') :
    s'.host.control2 &&& ~~~b.platform.SELBASECLK_MASK =
      writtenTo v (es ++ [e]) &&& ~~~b.platform.SELBASECLK_MASK := by
  unfold writtenTo
  rw [lastSome_snoc]
  rcases h with hw | ⟨hw, hsame⟩
  · rw [hw]
    rfl
  · rw [hw, Option.none_or, hsame]
    exact hf.frame

/-- The 8-bit mode after an event that keeps it unless it sets it. -/
theorem wide_snoc (he : NoReset e) (hf : Follows b v es s)
    (hw : Widened e → s'.host_control &&& b.CTRL_8BITBUS = b.CTRL_8BITBUS)
    (hn : ¬Widened e → s'.host_control &&& b.CTRL_8BITBUS = s.host_control &&& b.CTRL_8BITBUS) :
    (Since Widened NoReset (es ++ [e]) → s'.host_control &&& b.CTRL_8BITBUS = b.CTRL_8BITBUS) ∧
      (¬Since Widened NoReset (es ++ [e]) → s'.host_control &&& b.CTRL_8BITBUS = 0) := by
  rw [since_snoc]
  by_cases hwe : Widened e
  · exact ⟨fun _ ↦ hw hwe, fun hno ↦ absurd (Or.inl hwe) hno⟩
  · refine ⟨fun hs ↦ ?_, fun hno ↦ ?_⟩
    · rw [hn hwe]
      exact hf.wide (hs.resolve_left hwe).1
    · rw [hn hwe]
      exact hf.narrow fun hs ↦ hno (Or.inr ⟨hs, he⟩)

/-- An event with which the driver looks at its source. -/
theorem Follows.select (hf : Follows b v es s) (he : NoReset e) (hsel : Selected e)
    (hsource : s'.host.cur_clk < 4) (hselected : get_curclk b.platform s'.host.control2 = s'.host.cur_clk)
    (hframe : Frames b e s s') (hw : Widened e → s'.host_control &&& b.CTRL_8BITBUS = b.CTRL_8BITBUS)
    (hn : ¬Widened e → s'.host_control &&& b.CTRL_8BITBUS = s.host_control &&& b.CTRL_8BITBUS) :
    Follows b v (es ++ [e]) s' := by
  obtain ⟨hwide, hnarrow⟩ := wide_snoc he hf hw hn
  refine ⟨hsource, hf.frame_snoc hframe, fun _ ↦ hselected, fun hno ↦ ?_, hwide, hnarrow⟩
  exact absurd (since_snoc.mpr (Or.inl hsel)) hno

/-- And one with which it does not. -/
theorem Follows.quiet (hf : Follows b v es s) (he : NoReset e) (hsel : ¬Selected e)
    (hc : get_curclk b.platform s'.host.control2 = get_curclk b.platform s.host.control2)
    (hk : s'.host.cur_clk = s.host.cur_clk) (hframe : Frames b e s s')
    (hn : s'.host_control &&& b.CTRL_8BITBUS = s.host_control &&& b.CTRL_8BITBUS) (hw : ¬Widened e) :
    Follows b v (es ++ [e]) s' := by
  obtain ⟨hwide, hnarrow⟩ := wide_snoc he hf (fun h ↦ absurd h hw) fun _ ↦ hn
  have hiff : Since Selected NoReset (es ++ [e]) ↔ Since Selected NoReset es := by
    rw [since_snoc]
    exact ⟨fun h ↦ (h.resolve_left hsel).1, fun h ↦ Or.inr ⟨h, he⟩⟩
  refine ⟨hk ▸ hf.source, hf.frame_snoc hframe, ?_, ?_, hwide, hnarrow⟩
  · rw [hiff, hc, hk]
    exact hf.selected
  · rw [hiff, hc, resetTo_snoc he]
    exact hf.untouched

/-! ## The calls of the board -/

theorem cfg_gpio_spec (width : Nat) :
    (cfg_gpio b width s).host = s.host ∧ (cfg_gpio b width s).host_control = s.host_control := by
  unfold cfg_gpio
  split
  · exact ⟨rfl, rfl⟩
  · exact ⟨rfl, rfl⟩

/-- What `cfg_card` leaves alone, if it is called (`c`) or not. -/
structure CardLeaves (b : Board) (called : Bool) (s s' : Bus) : Prop where
  cur_clk : s'.host.cur_clk = s.host.cur_clk
  get_curclk : get_curclk b.platform s'.host.control2 = get_curclk b.platform s.host.control2
  host_control : s'.host_control &&& b.CTRL_8BITBUS = s.host_control &&& b.CTRL_8BITBUS
  control2 : called = false → s'.host.control2 = s.host.control2

theorem get_curclk_congr {p : Platform} {c c' : BitVec 32}
    (h : c &&& p.SELBASECLK_MASK = c' &&& p.SELBASECLK_MASK) : get_curclk p c = get_curclk p c' := by
  unfold get_curclk
  rw [h]

theorem cfg_card_leaves (hb : b.CardKeeps) (hcard : b.cfg_card (.set_ios ios) card) :
    CardLeaves b s.host.cfg_card s (cfg_card card ios s) := by
  unfold cfg_card
  split
  next hyes =>
    obtain ⟨hsource, hmode⟩ := hb _ _ hcard s.regs
    exact ⟨rfl, get_curclk_congr hsource, hmode, fun hno ↦ absurd (hyes.symm.trans hno) (by decide)⟩
  next => exact ⟨rfl, rfl, rfl, fun _ ↦ rfl⟩

theorem set_width_spec {bus_width : Option BusWidth} (h : set_width b bus_width s = some s') :
    s'.host = s.host ∧ s'.host_control =
      if bus_width = some .MMC_BUS_WIDTH_8 then s.host_control ||| b.CTRL_8BITBUS else s.host_control := by
  unfold set_width at h
  split at h
  · obtain rfl := Option.some.inj h
    exact cfg_gpio_spec 8
  · obtain rfl := Option.some.inj h
    exact cfg_gpio_spec 4
  · obtain rfl := Option.some.inj h
    exact cfg_gpio_spec 1
  · cases h

theorem check_sclk_cfg_card {p : Platform} {h : Host} :
    (sdhci_s3c_check_sclk p h).cfg_card = h.cfg_card := by
  unfold sdhci_s3c_check_sclk
  split
  · rfl
  · rfl

/-- `sdhci_s3c_set_ios` looks at the source, sets the 8-bit mode for a card with eight lines only, and calls
`cfg_card`. -/
theorem set_ios_cases (h : sdhci_s3c_set_ios b card ios s = some s') :
    ∃ t, s' = cfg_card card ios t ∧ t.host = sdhci_s3c_check_sclk b.platform s.host ∧ t.host_control =
      if ios.power_off = false ∧ ios.bus_width = some .MMC_BUS_WIDTH_8 then
        s.host_control ||| b.CTRL_8BITBUS else s.host_control := by
  unfold sdhci_s3c_set_ios at h
  dsimp only at h
  split at h
  next hoff =>
    refine ⟨_, (Option.some.inj h).symm, rfl, (if_neg fun hw ↦ ?_).symm⟩
    rw [hoff] at hw
    exact absurd hw.1 (by decide)
  next hon =>
    have hon : ios.power_off = false := by simpa using hon
    obtain ⟨t, ht, rfl⟩ := Option.map_eq_some_iff.mp h
    obtain ⟨hh, hc⟩ := set_width_spec ht
    refine ⟨t, rfl, hh, hc.trans ?_⟩
    simp only [hon, true_and]

theorem set_ios_follows (hp : b.platform.Selects) (hb : b.CardKeeps) (hf : Follows b v es s)
    (hcard : b.cfg_card (.set_ios ios) card) (h : sdhci_s3c_set_ios b card ios s = some s') :
    Follows b v
      (es ++ [.set_ios ios (if s.host.cfg_card = true then some s'.host.control2 else none)]) s' := by
  have hin := check_sclk_inStep hp hf.source
  obtain ⟨t, rfl, hhost, hhc⟩ := set_ios_cases h
  have hleaves := @cfg_card_leaves b t ios card hb hcard
  have hcalled : t.host.cfg_card = s.host.cfg_card := by rw [hhost, check_sclk_cfg_card]
  generalize cfg_card card ios t = s' at hleaves ⊢
  have hwidened : Widened (.set_ios ios (if s.host.cfg_card = true then some s'.host.control2 else none)) ↔
    ios.power_off = false ∧ ios.bus_width = some .MMC_BUS_WIDTH_8 := Iff.rfl
  refine hf.select rfl trivial ?_ ?_ ?_ ?_ ?_
  · rw [hleaves.cur_clk, hhost]
    exact hin.source
  · rw [hleaves.get_curclk, hleaves.cur_clk, hhost]
    exact hin.selected
  · cases hyes : s.host.cfg_card with
    | true => exact Or.inl rfl
    | false =>
      refine Or.inr ⟨rfl, ?_⟩
      rw [hleaves.control2 (hcalled.trans hyes), hhost]
      exact hin.frame
  · intro hw
    rw [hleaves.host_control, hhc, if_pos (hwidened.mp hw)]
    ext i
    rw [BitVec.getElem_and, BitVec.getElem_or, Bool.and_eq_right_iff_imp]
    intro hbit
    rw [hbit, Bool.or_true]
  · intro hw
    rw [hleaves.host_control, hhc, if_neg (mt hwidened.mpr hw)]

theorem set_clock_leaves (hb : b.CardKeeps) (hcard : b.cfg_card (.set_clock clock) card) :
    CardLeaves b (decide (clock ≠ 0 ∧ (sdhci_s3c_set_clock b.platform clock s.host).cfg_card = true))
      { s with host := sdhci_s3c_set_clock b.platform clock s.host } (set_clock b card clock s) := by
  unfold set_clock set_clock_card
  split
  next hyes =>
    obtain ⟨hsource, hmode⟩ := hb _ _ hcard
      (Bus.regs { s with host := sdhci_s3c_set_clock b.platform clock s.host })
    refine ⟨rfl, get_curclk_congr hsource, hmode, fun hno ↦ absurd hyes (of_decide_eq_false hno)⟩
  next => exact ⟨rfl, rfl, rfl, fun _ ↦ rfl⟩

theorem set_clock_cfg_card {p : Platform} {h : Host} :
    (sdhci_s3c_set_clock p clock h).cfg_card = h.cfg_card := by
  have hchange : ∀ i, (change_source p i h).cfg_card = h.cfg_card := fun _ ↦ check_sclk_cfg_card
  unfold sdhci_s3c_set_clock
  split
  · rfl
  · dsimp only
    split <;> split <;> first | exact hchange _ | rfl

theorem set_clock_follows (hp : b.platform.Selects) (hb : b.CardKeeps) (hf : Follows b v es s)
    (hcard : b.cfg_card (.set_clock clock) card) (h : set_clock b card clock s = s') :
    Follows b v (es ++ [.set_clock clock (changes s.host clock)
      (if clock ≠ 0 ∧ s.host.cfg_card = true then some s'.host.control2 else none)]) s' := by
  obtain ⟨hyes, hno⟩ := @set_clock_register _ s.host clock hp
  have hleaves := @set_clock_leaves b s clock card hb hcard
  rw [h, set_clock_cfg_card] at hleaves
  have hframe : ∀ changed, (sdhci_s3c_set_clock b.platform clock s.host).control2 &&&
        ~~~b.platform.SELBASECLK_MASK = s.host.control2 &&& ~~~b.platform.SELBASECLK_MASK →
      Frames b (.set_clock clock changed
        (if clock ≠ 0 ∧ s.host.cfg_card = true then some s'.host.control2 else none)) s s' := by
    intro changed hkept
    by_cases hcalled : clock ≠ 0 ∧ s.host.cfg_card = true
    · exact Or.inl (if_pos hcalled)
    · refine Or.inr ⟨if_neg hcalled, ?_⟩
      rw [hleaves.control2 (decide_eq_false hcalled)]
      exact hkept
  cases hch : changes s.host clock with
  | true =>
    obtain ⟨hsource, hselected, hkept⟩ := hyes hch
    refine hf.select rfl rfl ?_ ?_ (hframe _ hkept) False.elim fun _ ↦ hleaves.host_control
    · rw [hleaves.cur_clk]
      exact hsource
    · rw [hleaves.get_curclk, hleaves.cur_clk]
      exact hselected
  | false =>
    obtain ⟨hc, hk⟩ := hno hch
    refine hf.quiet rfl nofun ?_ ?_ (hframe _ (by rw [hc])) hleaves.host_control id
    · rw [hleaves.get_curclk, hc]
    · rw [hleaves.cur_clk, hk]

theorem follows_step (hp : b.platform.Selects) (hb : b.CardKeeps) (hf : Follows b v es s)
    (hs : BusStep b s e s') : Follows b v (es ++ [e]) s' := by
  cases hs with
  | set_ios ios card hcard h => exact set_ios_follows hp hb hf hcard h
  | set_clock clock card hcard h => exact set_clock_follows hp hb hf hcard h
  | get_max_clk =>
    have hin := check_sclk_inStep hp hf.source
    exact hf.select rfl trivial hin.source hin.selected (Or.inr ⟨rfl, hin.frame⟩) False.elim fun _ ↦ rfl
  | reset control2 =>
    have hto : resetTo v (es ++ [.reset control2]) = control2 := by
      unfold resetTo
      rw [lastSome_snoc]
      rfl
    have hnone : ∀ P, ¬P (BusEvent.reset control2) → ¬Since P NoReset (es ++ [.reset control2]) := by
      intro P hP hs
      rcases since_snoc.mp hs with h | ⟨-, h⟩
      · exact hP h
      · cases h
    refine ⟨hf.source, hf.frame_snoc (Or.inl rfl), fun h ↦ absurd h (hnone _ id), fun _ ↦ by rw [hto],
      fun h ↦ absurd h (hnone _ id), fun _ ↦ ?_⟩
    exact BitVec.zero_and
  | core host_control h => exact hf.quiet rfl id rfl rfl (Or.inr ⟨rfl, rfl⟩) h id

/-- In any order of calls, resets and writes of the core, with a `cfg_card` that leaves the clock source and
the 8-bit mode alone: `CONTROL2` selects the driver's source as soon as the driver has looked at it since the
last reset, and until then the one that the reset has made it; its other bits are what the last reset or call
of `cfg_card` has made them.  The 8-bit mode is set exactly when a card has had it since the last reset. -/
theorem registers_follow (hp : b.platform.Selects) (hb : b.CardKeeps) (s₀ : Bus) (hk : s₀.host.cur_clk < 4)
    (hc : s₀.host_control &&& b.CTRL_8BITBUS = 0) (hr : Run (BusStep b) s₀ es s) :
    Follows b s₀.host.control2 es s := by
  have h0 : Follows b s₀.host.control2 [] s₀ :=
    ⟨hk, rfl, fun h ↦ absurd h not_since_nil, fun _ ↦ rfl, fun h ↦ absurd h not_since_nil, fun _ ↦ hc⟩
  exact hr.invariant (Follows b s₀.host.control2) h0 fun _ _ _ _ _ hf hs ↦ follows_step hp hb hf hs

-- A `cfg_card` that sets two bits of `CONTROL2`, keeps the clock source and clears the others.
def feedback (r : Regs) : Regs := { r with control2 := (r.control2 &&& 0x30) ||| 0x40000100 }

def feedback_board : Board where
  platform := s3c_platform
  CTRL_8BITBUS := 0x20
  cfg_gpio := true
  cfg_card := fun _ card ↦ card = feedback

/-- A card with eight lines, and then one with four, which finds the 8-bit mode set. -/
theorem registers_follow_narrow_card :
    ∃ es s, Run (BusStep feedback_board) ⟨{ initial_host (fun _ ↦ none) with cfg_card := true }, 0, []⟩ es s ∧
      s.gpio = [8, 4] ∧ s.host_control = 0x20 ∧ s.host.control2 = 0x40000100 ∧
      Follows feedback_board 0 es s := by
  let s₀ : Bus := ⟨{ initial_host (fun _ ↦ none) with cfg_card := true }, 0, []⟩
  have h₁ : Run (BusStep feedback_board) s₀ _ _ :=
    .snoc .nil (.set_ios ⟨400000, false, some .MMC_BUS_WIDTH_8⟩ feedback rfl rfl)
  have h₂ : Run (BusStep feedback_board) s₀ _ _ :=
    h₁.snoc (.set_ios ⟨400000, false, some .MMC_BUS_WIDTH_4⟩ feedback rfl rfl)
  have hkeeps : feedback_board.CardKeeps := by
    rintro ios card rfl r
    refine ⟨?_, rfl⟩
    show ((r.control2 &&& 0x30) ||| 0x40000100) &&& 0x30 = r.control2 &&& 0x30
    rw [BitVec.and_or_distrib_right, BitVec.and_assoc, BitVec.and_self]
    exact BitVec.or_zero
  refine ⟨_, _, h₂, ?_, ?_, ?_, registers_follow ⟨by decide, rfl⟩ hkeeps _ (by decide) (by decide) h₂⟩
  · decide
  · decide
  · decide

end Runs

end OK210Drivers.Mmc
