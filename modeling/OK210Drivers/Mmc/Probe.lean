import Mathlib.Data.List.FinRange
import Mathlib.Data.Int.Basic
import Mathlib.Logic.Function.Basic
import OK210Drivers.Library.Loading
import OK210Drivers.Mmc.ClockSource

/-!
# What the MMC probe holds

`sdhci_s3c_probe` gives back what it has taken when it fails, but for the register area when it cannot be
mapped and for the mapping when the host cannot be added.  `sdhci_s3c_remove` gives nothing back.
-/

open Library

namespace OK210Drivers.Mmc

def ENOENT : Int := 2
def ENXIO : Int := 6

/-- The platform data: the slots of `clocks` that have a name, and whether `cfg_ext_cd` is there. -/
structure Pdata where
  clocks : Fin MAX_BUS_CLK → Bool
  cfg_ext_cd : Bool

/-- What the probe meets.  A pointer is 0 when it is valid, and otherwise its error; the register area is
free when no other driver has it. -/
structure Met where
  platform_data : Option Pdata
  platform_get_irq : Int
  platform_get_resource : Bool
  sdhci_alloc_host : Int
  clk_get_hsmmc : Int
  clk_get : Fin MAX_BUS_CLK → Bool
  area_free : Bool
  ioremap_nocache : Bool
  sdhci_add_host : Int
  request_irq : Int

/-- What is held: references to clocks and how often they are enabled, and how often `clk_disable` and
`clk_put` have been given a null pointer. -/
structure Held where
  hosts : Int
  io_refs : Int
  io_enables : Int
  bus_refs : Fin MAX_BUS_CLK → Int
  bus_enables : Fin MAX_BUS_CLK → Int
  ioarea : Bool
  mappings : Nat
  added : Nat
  irqs : Nat
  null_clks : Nat

def Held.none : Held := ⟨0, 0, 0, fun _ ↦ 0, fun _ ↦ 0, false, 0, 0, 0, 0⟩

/-- `clk_bus` of a new host, the number of clocks found, and what is held. -/
structure Found where
  clk_bus : Fin MAX_BUS_CLK → Bool
  clks : Nat
  held : Held

def bus_clk (pdata : Pdata) (m : Met) (f : Found) (ptr : Fin MAX_BUS_CLK) : Found :=
  if pdata.clocks ptr = false then f
  else if m.clk_get ptr = false then f
  else
    { clk_bus := Function.update f.clk_bus ptr true
      clks := f.clks + 1
      held := { f.held with
        bus_refs := Function.update f.held.bus_refs ptr (f.held.bus_refs ptr + 1)
        bus_enables := Function.update f.held.bus_enables ptr (f.held.bus_enables ptr + 1) } }

def bus_clks (pdata : Pdata) (m : Met) (h : Held) : Found :=
  (List.finRange MAX_BUS_CLK).foldl (bus_clk pdata m) ⟨fun _ ↦ false, 0, h⟩

-- `clk_disable` and `clk_put` of one slot of `clk_bus`.
def put_bus_clk (clk_bus : Fin MAX_BUS_CLK → Bool) (h : Held) (ptr : Fin MAX_BUS_CLK) : Held :=
  if clk_bus ptr = true then
    { h with
      bus_refs := Function.update h.bus_refs ptr (h.bus_refs ptr - 1)
      bus_enables := Function.update h.bus_enables ptr (h.bus_enables ptr - 1) }
  else { h with null_clks := h.null_clks + 1 }

def err_io_clk (ret : Int) (h : Held) : Int × Held := (ret, { h with hosts := h.hosts - 1 })

def err_no_busclks (ret : Int) (h : Held) : Int × Held :=
  err_io_clk ret { h with io_enables := h.io_enables - 1, io_refs := h.io_refs - 1 }

def err_req_regs (clk_bus : Fin MAX_BUS_CLK → Bool) (ret : Int) (h : Held) : Int × Held :=
  err_no_busclks ret ((List.finRange MAX_BUS_CLK).foldl (put_bus_clk clk_bus) h)

def err_add_host (clk_bus : Fin MAX_BUS_CLK → Bool) (ret : Int) (h : Held) : Int × Held :=
  err_req_regs clk_bus ret { h with ioarea := false }

def sdhci_s3c_probe (m : Met) (h : Held) : Int × Held :=
  match m.platform_data with
  | none => (- ENOENT, h)
  | some pdata =>
    if m.platform_get_irq < 0 then (m.platform_get_irq, h)
    else if m.platform_get_resource = false then (- ENOENT, h)
    else if m.sdhci_alloc_host ≠ 0 then (m.sdhci_alloc_host, h)
    else
      let h := { h with hosts := h.hosts + 1 }
      if m.clk_get_hsmmc ≠ 0 then err_io_clk m.clk_get_hsmmc h
      else
        let h := { h with io_refs := h.io_refs + 1, io_enables := h.io_enables + 1 }
        let f := bus_clks pdata m h
        if f.clks = 0 then err_no_busclks (- ENOENT) f.held
        else if m.area_free = false ∨ f.held.ioarea = true then err_req_regs f.clk_bus (- ENXIO) f.held
        else
          let h := { f.held with ioarea := true }
          if m.ioremap_nocache = false then err_req_regs f.clk_bus (- ENXIO) h
          else
            let h := { h with mappings := h.mappings + 1 }
            if m.sdhci_add_host ≠ 0 then err_add_host f.clk_bus m.sdhci_add_host h
            else
              let h := { h with added := h.added + 1 }
              if pdata.cfg_ext_cd = true ∧ m.request_irq = 0 then (0, { h with irqs := h.irqs + 1 })
              else (0, h)

/-- The clocks that a probe finds. -/
def Met.found (m : Met) (i : Fin MAX_BUS_CLK) : Bool :=
  match m.platform_data with
  | none => false
  | some pdata => pdata.clocks i && m.clk_get i

def Met.clks (m : Met) : Nat := (List.finRange MAX_BUS_CLK).countP m.found

/-- The probe gets as far as to the register area. -/
def Met.Begins (m : Met) : Prop :=
  m.platform_data.isSome = true ∧ 0 ≤ m.platform_get_irq ∧ m.platform_get_resource = true ∧
    m.sdhci_alloc_host = 0 ∧ m.clk_get_hsmmc = 0 ∧ 0 < m.clks

/-- All that the probe needs is there, when the driver does not have the register area already: some bus
clock is enough, and it goes on when `request_irq` fails. -/
def Met.Able (m : Met) : Prop :=
  m.Begins ∧ m.area_free = true ∧ m.ioremap_nocache = true ∧ m.sdhci_add_host = 0

/-- The register area cannot be mapped. -/
def Met.Unmapped (m : Met) : Prop :=
  m.Begins ∧ m.area_free = true ∧ m.ioremap_nocache = false

/-- What a probe that succeeds takes. -/
def Held.bound (m : Met) (h : Held) : Held where
  hosts := h.hosts + 1
  io_refs := h.io_refs + 1
  io_enables := h.io_enables + 1
  bus_refs := fun i ↦ if m.found i = true then h.bus_refs i + 1 else h.bus_refs i
  bus_enables := fun i ↦ if m.found i = true then h.bus_enables i + 1 else h.bus_enables i
  ioarea := true
  mappings := h.mappings + 1
  added := h.added + 1
  irqs := if (∃ pdata ∈ m.platform_data, pdata.cfg_ext_cd = true) ∧ m.request_irq = 0 then h.irqs + 1
    else h.irqs
  null_clks := h.null_clks

/-- The slots without a clock are put, too. -/
def Held.nulls (m : Met) (h : Held) : Held :=
  { h with null_clks := h.null_clks + (MAX_BUS_CLK - m.clks) }

/-- How a probe ends. -/
inductive Probed (m : Met) (h : Held) : Int → Held → Prop
  | early {ret : Int} (hno : ¬m.Begins) (hret : ret ≠ 0) : Probed m h ret h
  | area (hb : m.Begins) (hno : ¬(m.area_free = true ∧ h.ioarea = false)) : Probed m h (- ENXIO) (h.nulls m)
  | map (hun : m.Unmapped) (hfree : h.ioarea = false) :
      Probed m h (- ENXIO) { h.nulls m with ioarea := true }
  | add (hb : m.Begins) (harea : m.area_free = true) (hfree : h.ioarea = false)
      (hmap : m.ioremap_nocache = true) (hret : m.sdhci_add_host ≠ 0) :
      Probed m h m.sdhci_add_host { h.nulls m with mappings := h.mappings + 1 }
  | bound (hable : m.Able) (hfree : h.ioarea = false) : Probed m h 0 (h.bound m)

section Clocks

variable {pdata : Pdata} {m : Met} {f : Found} {h : Held} {clk_bus : Fin MAX_BUS_CLK → Bool}
  {l : List (Fin MAX_BUS_CLK)}

def Held.addClks (n : Int) (p : Fin MAX_BUS_CLK → Bool) (h : Held) : Held :=
  { h with
    bus_refs := fun i ↦ if p i = true then h.bus_refs i + n else h.bus_refs i
    bus_enables := fun i ↦ if p i = true then h.bus_enables i + n else h.bus_enables i }

theorem update_add {g : Fin MAX_BUS_CLK → Int} {n : Int} {a : Fin MAX_BUS_CLK} (ha : a ∉ l)
    (p : Fin MAX_BUS_CLK → Bool) (hp : p a = true) :
    (fun i ↦ if (decide (i ∈ l) && p i) = true then Function.update g a (g a + n) i + n
      else Function.update g a (g a + n) i) =
    fun i ↦ if (decide (i ∈ a :: l) && p i) = true then g i + n else g i := by
  funext i
  by_cases hi : i = a
  · subst hi
    simp [ha, hp]
  · simp [hi]

theorem skip_add {g : Fin MAX_BUS_CLK → Int} {n : Int} {a : Fin MAX_BUS_CLK}
    (p : Fin MAX_BUS_CLK → Bool) (hp : p a = false) :
    (fun i ↦ if (decide (i ∈ l) && p i) = true then g i + n else g i) =
    fun i ↦ if (decide (i ∈ a :: l) && p i) = true then g i + n else g i := by
  funext i
  by_cases hi : i = a
  · subst hi
    simp [hp]
  · simp [hi]

theorem addClks_found {n : Int} {a : Fin MAX_BUS_CLK} (ha : a ∉ l) (p : Fin MAX_BUS_CLK → Bool)
    (hp : p a = true) :
    ({ h with
      bus_refs := Function.update h.bus_refs a (h.bus_refs a + n)
      bus_enables := Function.update h.bus_enables a (h.bus_enables a + n) } : Held).addClks n
        (fun i ↦ decide (i ∈ l) && p i) = h.addClks n fun i ↦ decide (i ∈ a :: l) && p i := by
  have hrefs := @update_add l h.bus_refs n a ha p hp
  have henables := @update_add l h.bus_enables n a ha p hp
  unfold Held.addClks
  dsimp only
  rw [hrefs, henables]

theorem addClks_absent {n : Int} {a : Fin MAX_BUS_CLK} (p : Fin MAX_BUS_CLK → Bool) (hp : p a = false) :
    h.addClks n (fun i ↦ decide (i ∈ l) && p i) = h.addClks n fun i ↦ decide (i ∈ a :: l) && p i := by
  have hrefs := @skip_add l h.bus_refs n a p hp
  have henables := @skip_add l h.bus_enables n a p hp
  unfold Held.addClks
  rw [hrefs, henables]

theorem or_cons {g : Fin MAX_BUS_CLK → Bool} {a : Fin MAX_BUS_CLK} (p : Fin MAX_BUS_CLK → Bool) :
    (fun i ↦ (if i = a then g i || p i else g i) || (decide (i ∈ l) && p i)) =
      fun i ↦ g i || (decide (i ∈ a :: l) && p i) := by
  funext i
  by_cases hi : i = a
  · subst hi
    cases g i <;> cases p i <;> simp
  · simp [hi]

/-- The loop of the probe takes the clocks that are found. -/
theorem foldl_bus_clk (hl : l.Nodup) (hm : m.platform_data = some pdata) :
    l.foldl (bus_clk pdata m) f =
      { clk_bus := fun i ↦ f.clk_bus i || (decide (i ∈ l) && m.found i)
        clks := f.clks + l.countP m.found
        held := f.held.addClks 1 fun i ↦ decide (i ∈ l) && m.found i } := by
  induction l generalizing f with
  | nil => simp [Held.addClks]
  | cons a l ih =>
    obtain ⟨ha, hl⟩ := List.nodup_cons.mp hl
    have hfound : m.found a = (pdata.clocks a && m.clk_get a) := by
      unfold Met.found
      rw [hm]
    rw [List.foldl_cons, ih hl, List.countP_cons]
    cases hp : m.found a with
    | true =>
      have hboth : pdata.clocks a = true ∧ m.clk_get a = true := by simpa [hp] using hfound.symm
      have hstep : bus_clk pdata m f a =
          { clk_bus := Function.update f.clk_bus a true
            clks := f.clks + 1
            held := { f.held with
              bus_refs := Function.update f.held.bus_refs a (f.held.bus_refs a + 1)
              bus_enables := Function.update f.held.bus_enables a (f.held.bus_enables a + 1) } } := by
        unfold bus_clk
        rw [if_neg (by simp [hboth.1]), if_neg (by simp [hboth.2])]
      rw [hstep, addClks_found ha m.found hp]
      congr 1
      · rw [← or_cons m.found]
        funext i
        by_cases hi : i = a
        · subst hi
          simp [hp]
        · simp [hi]
      · simp only [if_pos]
        omega
    | false =>
      have hstep : bus_clk pdata m f a = f := by
        rw [hp] at hfound
        unfold bus_clk
        split
        · rfl
        next hname =>
          rw [if_pos]
          simpa [hname] using hfound.symm
      rw [hstep, addClks_absent m.found hp]
      congr 1
      rw [← or_cons m.found]
      funext i
      by_cases hi : i = a
      · subst hi
        simp [hp]
      · simp [hi]

theorem foldl_put_bus_clk (hl : l.Nodup) :
    l.foldl (put_bus_clk clk_bus) h =
      { h.addClks (-1) fun i ↦ decide (i ∈ l) && clk_bus i with
        null_clks := h.null_clks + l.countP fun i ↦ !clk_bus i } := by
  induction l generalizing h with
  | nil => simp [Held.addClks]
  | cons a l ih =>
    obtain ⟨ha, hl⟩ := List.nodup_cons.mp hl
    rw [List.foldl_cons, ih hl, List.countP_cons]
    cases hp : clk_bus a with
    | true =>
      have hstep : put_bus_clk clk_bus h a = { h with
          bus_refs := Function.update h.bus_refs a (h.bus_refs a + -1)
          bus_enables := Function.update h.bus_enables a (h.bus_enables a + -1) } := if_pos hp
      rw [hstep, addClks_found ha clk_bus hp]
      simp
    | false =>
      have hstep : put_bus_clk clk_bus h a = { h with null_clks := h.null_clks + 1 } :=
        if_neg (by simp [hp])
      rw [hstep, ← addClks_absent clk_bus hp]
      unfold Held.addClks
      simp
      omega

theorem bus_clks_eq (hm : m.platform_data = some pdata) :
    bus_clks pdata m h = ⟨m.found, m.clks, h.addClks 1 m.found⟩ := by
  unfold bus_clks
  rw [foldl_bus_clk (List.nodup_finRange _) hm]
  simp [List.mem_finRange, Met.clks]

theorem countP_not_found :
    ((List.finRange MAX_BUS_CLK).countP fun i ↦ !m.found i) = MAX_BUS_CLK - m.clks := by
  have hsum := List.length_eq_countP_add_countP m.found (l := List.finRange MAX_BUS_CLK)
  rw [List.length_finRange] at hsum
  have hnot : (fun i ↦ !m.found i) = fun i ↦ decide ¬m.found i = true := by
    funext i
    cases m.found i <;> rfl
  rw [hnot]
  unfold Met.clks
  omega

theorem err_io_clk_eq (ret : Int) : err_io_clk ret { h with hosts := h.hosts + 1 } = (ret, h) := by
  unfold err_io_clk
  simp

theorem err_no_busclks_eq (ret : Int) (hclks : m.clks = 0) :
    err_no_busclks ret
        (({ h with hosts := h.hosts + 1, io_refs := h.io_refs + 1, io_enables := h.io_enables + 1 } :
          Held).addClks 1 m.found) = (ret, h) := by
  have hno : ∀ i, m.found i = false := fun i ↦
    Bool.eq_false_iff.mpr (List.countP_eq_zero.mp hclks i (List.mem_finRange i))
  unfold err_no_busclks err_io_clk Held.addClks
  simp [hno]

/-- The clocks and the host are given back. -/
theorem err_req_regs_eq (ret : Int) (ioarea : Bool) (mappings : Nat) :
    err_req_regs m.found ret
        { ({ h with hosts := h.hosts + 1, io_refs := h.io_refs + 1, io_enables := h.io_enables + 1 } :
            Held).addClks 1 m.found with ioarea := ioarea, mappings := mappings } =
      (ret, { h.nulls m with ioarea := ioarea, mappings := mappings }) := by
  have hback : ∀ g : Fin MAX_BUS_CLK → Int,
      (fun i ↦ if m.found i = true then (if m.found i = true then g i + 1 else g i) + -1
        else if m.found i = true then g i + 1 else g i) = g := by
    intro g
    funext i
    cases m.found i
    · rfl
    · show g i + 1 + -1 = g i
      omega
  unfold err_req_regs err_no_busclks err_io_clk Held.nulls
  rw [foldl_put_bus_clk (List.nodup_finRange _), countP_not_found]
  unfold Held.addClks
  simp only [List.mem_finRange, decide_true, Bool.true_and, hback]
  simp

end Clocks

section Probe

variable {m : Met} {h h' : Held} {ret : Int}

/-- Every way through the probe. -/
theorem sdhci_s3c_probe_cases (heq : sdhci_s3c_probe m h = (ret, h')) : Probed m h ret h' := by
  unfold sdhci_s3c_probe at heq
  split at heq
  next hm =>
    cases heq
    exact .early (fun hb ↦ by simpa [hm] using hb.1) (by decide)
  next pdata hm =>
    dsimp only at heq
    rw [bus_clks_eq hm] at heq
    dsimp only at heq
    split at heq
    next hirq =>
      cases heq
      exact .early (fun hb ↦ absurd hb.2.1 (by omega)) (by omega)
    next hirq =>
      split at heq
      next hres =>
        cases heq
        exact .early (fun hb ↦ by simpa [hres] using hb.2.2.1) (by decide)
      next hres =>
        split at heq
        next halloc =>
          cases heq
          exact .early (fun hb ↦ halloc hb.2.2.2.1) halloc
        next halloc =>
          split at heq
          next hio =>
            rw [err_io_clk_eq] at heq
            cases heq
            exact .early (fun hb ↦ hio hb.2.2.2.2.1) hio
          next hio =>
            split at heq
            next hclks =>
              rw [err_no_busclks_eq _ hclks] at heq
              cases heq
              exact .early (fun hb ↦ absurd hb.2.2.2.2.2 (by omega)) (by decide)
            next hclks =>
              have hb : m.Begins := ⟨by simp [hm], by omega, by simpa using hres, by simpa using halloc,
                by simpa using hio, Nat.pos_of_ne_zero hclks⟩
              split at heq
              next harea =>
                have hno : ¬(m.area_free = true ∧ h.ioarea = false) := by
                  rintro ⟨hfree, hmine⟩
                  rcases harea with hbusy | hheld
                  · rw [hfree] at hbusy
                    cases hbusy
                  · change h.ioarea = true at hheld
                    rw [hmine] at hheld
                    cases hheld
                cases (err_req_regs_eq (- ENXIO) h.ioarea h.mappings).symm.trans heq
                exact .area hb hno
              next harea =>
                obtain ⟨hfree, hmine⟩ : m.area_free = true ∧ h.ioarea = false := by
                  rw [not_or] at harea
                  exact ⟨by simpa using harea.1, Bool.eq_false_iff.mpr harea.2⟩
                split at heq
                next hmap =>
                  cases (err_req_regs_eq (- ENXIO) true h.mappings).symm.trans heq
                  exact .map ⟨hb, hfree, hmap⟩ hmine
                next hmap =>
                  split at heq
                  next hadd =>
                    cases (err_req_regs_eq m.sdhci_add_host false (h.mappings + 1)).symm.trans heq
                    rw [← hmine]
                    exact .add hb hfree hmine (by simpa using hmap) hadd
                  next hadd =>
                    obtain ⟨rfl, rfl⟩ : ret = 0 ∧ h' = h.bound m := by
                      split at heq
                      next hcd =>
                        cases heq
                        refine ⟨rfl, ?_⟩
                        unfold Held.bound Held.addClks
                        simp [hm, hcd]
                      next hcd =>
                        cases heq
                        refine ⟨rfl, ?_⟩
                        unfold Held.bound Held.addClks
                        simp [hm, hcd]
                    exact .bound ⟨hb, hfree, by simpa using hmap, by simpa using hadd⟩ hmine

theorem sdhci_s3c_probe_eq (m : Met) (h : Held) :
    Probed m h (sdhci_s3c_probe m h).1 (sdhci_s3c_probe m h).2 := sdhci_s3c_probe_cases rfl

theorem Probed.ret_eq_zero_iff (hp : Probed m h ret h') : ret = 0 ↔ m.Able ∧ h.ioarea = false := by
  cases hp with
  | early hno hret => exact ⟨fun h0 ↦ absurd h0 hret, fun hable ↦ absurd hable.1.1 hno⟩
  | area hb hno => exact ⟨nofun, fun hable ↦ absurd ⟨hable.1.2.1, hable.2⟩ hno⟩
  | map hun hfree =>
    refine ⟨nofun, fun hable ↦ ?_⟩
    have hmap := hable.1.2.2.1
    rw [hun.2.2] at hmap
    cases hmap
  | add hb harea hfree hmap hret => exact ⟨fun h0 ↦ absurd h0 hret, fun hable ↦ absurd hable.1.2.2.2 hret⟩
  | bound hable hfree => exact ⟨fun _ ↦ ⟨hable, hfree⟩, fun _ ↦ rfl⟩

/-- A probe succeeds when all that it needs is there and the driver does not have the register area
already.  One that fails has given back what it has taken exactly when it has not had the register area;
and it has put the slots without a clock when it has come that far. -/
theorem failed_probe_gives_back_iff (m : Met) (h : Held) :
    ((sdhci_s3c_probe m h).1 = 0 ↔ m.Able ∧ h.ioarea = false) ∧
      ((sdhci_s3c_probe m h).1 ≠ 0 →
        ((sdhci_s3c_probe m h).2 = { h with null_clks := (sdhci_s3c_probe m h).2.null_clks } ↔
          ¬(m.Begins ∧ m.area_free = true ∧ h.ioarea = false)) ∧
        (h.null_clks < (sdhci_s3c_probe m h).2.null_clks ↔ m.Begins ∧ m.clks < MAX_BUS_CLK)) := by
  have hp := sdhci_s3c_probe_eq m h
  refine ⟨hp.ret_eq_zero_iff, fun hret ↦ ?_⟩
  generalize (sdhci_s3c_probe m h).1 = ret, (sdhci_s3c_probe m h).2 = h' at hp hret
  have hnull : h.null_clks < h.null_clks + (MAX_BUS_CLK - m.clks) ↔ m.clks < MAX_BUS_CLK := by omega
  cases hp with
  | early hno =>
    exact ⟨⟨fun _ hb ↦ hno hb.1, fun _ ↦ rfl⟩, fun hlt ↦ absurd hlt (Nat.lt_irrefl _), fun hb ↦ absurd hb.1 hno⟩
  | area hb hno =>
    exact ⟨⟨fun _ hf ↦ hno hf.2, fun _ ↦ rfl⟩, hnull.trans (and_iff_right hb).symm⟩
  | map hun hfree =>
    refine ⟨⟨fun heq ↦ ?_, fun hno ↦ absurd ⟨hun.1, hun.2.1, hfree⟩ hno⟩, hnull.trans (and_iff_right hun.1).symm⟩
    have harea := congrArg Held.ioarea heq
    rw [show h.ioarea = false from hfree] at harea
    cases harea
  | add hb harea hfree =>
    refine ⟨⟨fun heq ↦ ?_, fun hno ↦ absurd ⟨hb, harea, hfree⟩ hno⟩, hnull.trans (and_iff_right hb).symm⟩
    have hmap := congrArg Held.mappings heq
    exact absurd hmap (Nat.succ_ne_self _)
  | bound => exact absurd rfl hret

end Probe

section Runs

/-- A probe after which the driver has the register area for good. -/
def KeepsArea : LoadEvent Met → Prop
  | .load m _ => m.Able ∨ m.Unmapped
  | .unload => False

def Able : LoadEvent Met → Prop
  | .load m _ => m.Able
  | .unload => False

/-- A probe that has succeeded and found the clock. -/
def boundClk (i : Fin MAX_BUS_CLK) : LoadEvent Met → Bool
  | .load m ret => decide (ret = 0) && m.found i
  | .unload => false

/-- What is held after a run. -/
structure Balanced (es : List (LoadEvent Met)) (h : Held) : Prop where
  area : h.ioarea = true ↔ ∃ e ∈ es, KeepsArea e
  hosts : h.hosts = es.countP LoadEvent.succeeded
  io : h.io_refs = h.hosts ∧ h.io_enables = h.hosts
  bus : ∀ i, h.bus_refs i = es.countP (boundClk i) ∧ h.bus_enables i = h.bus_refs i
  outcomes : Always (fun pre e ↦ e.succeeded = true ↔ Able e ∧ ∀ f ∈ pre, ¬KeepsArea f) es

variable {es : List (LoadEvent Met)} {w : Loading Held} {m : Met} {h h' : Held} {ret : Int}

theorem Balanced.unload (hb : Balanced es h) : Balanced (es ++ [.unload]) h := by
  obtain ⟨harea, hhosts, hio, hbus, hout⟩ := hb
  refine ⟨?_, ?_, hio, fun i ↦ ?_, ?_⟩
  · simp [harea, KeepsArea]
  · simp [hhosts, LoadEvent.succeeded]
  · simp [hbus, boundClk]
  · rw [always_snoc]
    exact ⟨hout, fun hno ↦ absurd hno (by decide), fun hable ↦ hable.1.elim⟩

/-- The register area is not there as long as no probe has kept it. -/
theorem Balanced.area_free_iff (hb : Balanced es h) : h.ioarea = false ↔ ∀ f ∈ es, ¬KeepsArea f := by
  rw [← Bool.not_eq_true, hb.area]
  push Not
  rfl

theorem Balanced.load (hb : Balanced es h) (hp : Probed m h ret h') :
    Balanced (es ++ [.load m ret]) h' := by
  have hsucc : (LoadEvent.load m ret).succeeded = true ↔ m.Able ∧ h.ioarea = false :=
    decide_eq_true_iff.trans hp.ret_eq_zero_iff
  have hfree := hb.area_free_iff
  obtain ⟨harea, hhosts, hio, hbus, hout⟩ := hb
  have hout' : Always (fun pre e ↦ e.succeeded = true ↔ Able e ∧ ∀ f ∈ pre, ¬KeepsArea f)
      (es ++ [.load m ret]) := by
    rw [always_snoc]
    exact ⟨hout, hsucc.trans (and_congr_right fun _ ↦ hfree)⟩
  have hkeep : ∀ P : Prop, (P ↔ h.ioarea = true ∨ KeepsArea (.load m ret)) →
      (P ↔ ∃ e ∈ es ++ [.load m ret], KeepsArea e) := by
    intro P hP
    rw [hP, harea]
    simp only [List.mem_append, List.mem_singleton, or_and_right, exists_or, exists_eq_left]
  -- nothing but the register area and the mapping changes when the probe fails
  have hfail : ret ≠ 0 → h'.hosts = h.hosts → h'.io_refs = h.io_refs → h'.io_enables = h.io_enables →
      h'.bus_refs = h.bus_refs → h'.bus_enables = h.bus_enables →
      (h'.ioarea = true ↔ h.ioarea = true ∨ KeepsArea (.load m ret)) → Balanced (es ++ [.load m ret]) h' := by
    intro hret hh hr he hbr hbe hk
    refine ⟨hkeep _ hk, ?_, ?_, fun i ↦ ?_, hout'⟩
    · rw [hh, hhosts]
      simp [LoadEvent.succeeded, hret]
    · rw [hr, he, hh]
      exact hio
    · rw [hbr, hbe]
      simpa [boundClk, hret] using hbus i
  cases hp with
  | early hno hret =>
    refine hfail hret rfl rfl rfl rfl rfl ⟨Or.inl, ?_⟩
    rintro (hh | hk | hk)
    · exact hh
    · exact absurd hk.1 hno
    · exact absurd hk.1 hno
  | area hbg hno =>
    refine hfail (by decide) rfl rfl rfl rfl rfl ⟨Or.inl, ?_⟩
    have hheld : m.area_free = true → h.ioarea = true := fun har ↦
      (Bool.eq_false_or_eq_true h.ioarea).resolve_right fun hfr ↦ hno ⟨har, hfr⟩
    rintro (hh | hk | hk)
    · exact hh
    · exact hheld hk.2.1
    · exact hheld hk.2.1
  | map hun hfr => exact hfail (by decide) rfl rfl rfl rfl rfl ⟨fun _ ↦ Or.inr (Or.inr hun), fun _ ↦ rfl⟩
  | add hbg har hfr hmap hret =>
    refine hfail hret rfl rfl rfl rfl rfl ⟨Or.inl, ?_⟩
    rintro (hh | hk | hk)
    · exact hh
    · exact absurd hk.2.2.2 hret
    · have hun := hk.2.2
      rw [hmap] at hun
      cases hun
  | bound hable hfr =>
    refine ⟨hkeep _ ⟨fun _ ↦ Or.inr (Or.inl hable), fun _ ↦ rfl⟩, ?_, ?_, fun i ↦ ?_, hout'⟩
    · simp [Held.bound, LoadEvent.succeeded, hhosts]
    · simp [Held.bound, hio]
    · have hi := hbus i
      cases hf : m.found i <;> simp [Held.bound, boundClk, hf, hi]

end Runs

end OK210Drivers.Mmc
