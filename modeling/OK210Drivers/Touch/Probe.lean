import Mathlib.Data.Int.Basic
import OK210Drivers.Library.Loading
import OK210Drivers.Touch.Driver

/-!
# What the touch screen probe holds

`s3c_ts_probe` registers its handlers with `ts`, and the ways out of it and `s3c_ts_remove` free them with
`ts->dev`: the pen interrupt, once it has been requested, is never free again.  The proc entry of
`CONFIG_ANDROID`, without which a probe succeeds too, is left out.
-/

open Library

namespace OK210Drivers.Touch

def ENOENT : Int := 2
def EIO : Int := 5
def ENOMEM : Int := 12
def EINVAL : Int := 22

/-- What a handler is registered with. -/
inductive DevId
  | ts
  | dev
  deriving DecidableEq

/-- What the probe meets.  `clk_get` is 0 for a clock, and else the error; the memory region is free when no
other driver has it. -/
structure Met where
  resource_mem : Bool
  region_free : Bool
  ioremap : Bool
  clk_get : Int
  kzalloc : Bool
  input_allocate_device : Bool
  resource_pen : Bool
  request_pen : Bool
  resource_adc : Bool
  request_adc : Bool
  input_register_device : Int

/-- What is held, the handlers of the two lines, and whether `ts` points to memory that has been freed. -/
structure Resources where
  region : Bool
  mappings : Int
  clk_refs : Int
  clk_enables : Int
  infos : Int
  inputs : Int
  registered : Int
  early_suspends : Nat
  pen : List DevId
  adc : List DevId
  ts_freed : Bool

def Resources.none : Resources := ⟨false, 0, 0, 0, 0, 0, 0, 0, [], [], false⟩

-- A registration under another `dev_id` stays.
def free_irq (dev_id : DevId) (handlers : List DevId) : List DevId := handlers.erase dev_id

def err_req (ret : Int) (r : Resources) : Option (Int × Resources) := some (ret, r)

def err_map (ret : Int) (r : Resources) : Option (Int × Resources) := err_req ret { r with region := false }

def err_clk (ret : Int) (r : Resources) : Option (Int × Resources) :=
  err_map ret { r with mappings := r.mappings - 1 }

def err_alloc (ret : Int) (r : Resources) : Option (Int × Resources) :=
  err_clk ret { r with clk_enables := r.clk_enables - 1, clk_refs := r.clk_refs - 1 }

def err_irq (ret : Int) (r : Resources) : Option (Int × Resources) :=
  err_alloc ret { r with inputs := r.inputs - 1, infos := r.infos - 1, ts_freed := true }

-- `ts_irq` is the conversion interrupt, from `start` to `end`.
def fail (ret : Int) (r : Resources) : Option (Int × Resources) :=
  err_irq ret { r with adc := free_irq .dev (free_irq .dev r.adc) }

-- The probe from `IRQ_PENDN` on.
def probe_irqs (m : Met) (r : Resources) : Option (Int × Resources) :=
  if m.resource_pen = false then err_irq (- ENOENT) r
  else if m.request_pen = false ∨ r.pen ≠ [] then err_irq (- EIO) r
  else
    let r := { r with pen := .ts :: r.pen }
    if m.resource_adc = false then err_irq (- ENOENT) r
    else if m.request_adc = false then err_irq (- EIO) r
    else
      let r := { r with adc := .ts :: r.adc }
      if m.input_register_device ≠ 0 then fail (- EIO) r
      else some (0, { r with registered := r.registered + 1 })

-- From the memory of `ts` on.  When only `kzalloc` fails, `ts->dev` is written through a null pointer.
def probe_input (earlysuspend : Bool) (m : Met) (r : Resources) : Option (Int × Resources) :=
  let r := { r with infos := if m.kzalloc = true then r.infos + 1 else r.infos, ts_freed := false }
  if m.input_allocate_device = false then err_alloc (- ENOMEM) r
  else if m.kzalloc = false then none
  else
    let r := { r with inputs := r.inputs + 1 }
    probe_irqs m (if earlysuspend = true then { r with early_suspends := r.early_suspends + 1 } else r)

/-- The probe, with or without `CONFIG_HAS_EARLYSUSPEND`. -/
def s3c_ts_probe (earlysuspend : Bool) (m : Met) (r : Resources) : Option (Int × Resources) :=
  if m.resource_mem = false then some (- ENOENT, r)
  else if m.region_free = false ∨ r.region = true then err_req (- ENOENT) r
  else
    let r := { r with region := true }
    if m.ioremap = false then err_map (- EINVAL) r
    else
      let r := { r with mappings := r.mappings + 1 }
      if m.clk_get ≠ 0 then err_clk m.clk_get r
      else probe_input earlysuspend m { r with clk_refs := r.clk_refs + 1, clk_enables := r.clk_enables + 1 }

-- `input_unregister_device` drops the device.
def s3c_ts_remove (earlysuspend : Bool) (r : Resources) : Resources :=
  let r := { r with pen := free_irq .dev r.pen, adc := free_irq .dev r.adc }
  let r := { r with clk_enables := r.clk_enables - 1, clk_refs := r.clk_refs - 1 }
  let r := if earlysuspend = true then { r with early_suspends := r.early_suspends - 1 } else r
  { r with registered := r.registered - 1, inputs := r.inputs - 1, mappings := r.mappings - 1 }

def s3c_ts_driver (earlysuspend : Bool) : Driver Resources Met :=
  ⟨s3c_ts_probe earlysuspend, s3c_ts_remove earlysuspend⟩

/-- The probe gets as far as to the memory of `ts`, when the driver does not have the region already. -/
def Met.Begins (m : Met) : Prop :=
  m.resource_mem = true ∧ m.region_free = true ∧ m.ioremap = true ∧ m.clk_get = 0

/-- The memory of `ts` is left behind when there is no input device. -/
def Met.LeavesInfo (m : Met) : Prop :=
  m.Begins ∧ m.kzalloc = true ∧ m.input_allocate_device = false

/-- With an input device, the handler of the early suspend is registered. -/
def Met.Suspends (m : Met) : Prop :=
  m.Begins ∧ m.kzalloc = true ∧ m.input_allocate_device = true

/-- It gets the pen interrupt, when the driver does not have that already. -/
def Met.Pen (m : Met) : Prop :=
  m.Suspends ∧ m.resource_pen = true ∧ m.request_pen = true

/-- Everything that is called succeeds. -/
def Met.Able (m : Met) : Prop :=
  m.Pen ∧ m.resource_adc = true ∧ m.request_adc = true ∧ m.input_register_device = 0

/-- How a probe ends, when it comes back. -/
inductive Probed (earlysuspend : Bool) (m : Met) (r : Resources) : Int → Resources → Prop
  | early {ret : Int} (hno : ¬(m.Begins ∧ r.region = false)) (hret : ret ≠ 0)
      (hmem : ret = - ENOMEM → m.clk_get ≠ 0) : Probed earlysuspend m r ret r
  | input (hb : m.Begins) (hfree : r.region = false) (hno : m.input_allocate_device = false) :
      Probed earlysuspend m r (- ENOMEM)
        { r with infos := if m.kzalloc = true then r.infos + 1 else r.infos, ts_freed := false }
  | pen {ret : Int} (hs : m.Suspends) (hfree : r.region = false) (hno : ¬(m.Pen ∧ r.pen = []))
      (hret : ret = - ENOENT ∨ ret = - EIO) :
      Probed earlysuspend m r ret
        { r with early_suspends := r.early_suspends + earlysuspend.toNat, ts_freed := true }
  | adc {ret : Int} (hp : m.Pen) (hfree : r.region = false) (hpen : r.pen = [])
      (hno : ¬(m.resource_adc = true ∧ m.request_adc = true)) (hret : ret = - ENOENT ∨ ret = - EIO) :
      Probed earlysuspend m r ret
        { r with early_suspends := r.early_suspends + earlysuspend.toNat, ts_freed := true, pen := [.ts] }
  | register (hp : m.Pen) (hfree : r.region = false) (hpen : r.pen = []) (hadc : m.request_adc = true)
      (hno : m.input_register_device ≠ 0) :
      Probed earlysuspend m r (- EIO)
        { r with
          early_suspends := r.early_suspends + earlysuspend.toNat
          ts_freed := true
          pen := [.ts]
          adc := free_irq .dev (free_irq .dev (.ts :: r.adc)) }
  | bound (hable : m.Able) (hfree : r.region = false) (hpen : r.pen = []) :
      Probed earlysuspend m r 0
        { region := true
          mappings := r.mappings + 1
          clk_refs := r.clk_refs + 1
          clk_enables := r.clk_enables + 1
          infos := r.infos + 1
          inputs := r.inputs + 1
          registered := r.registered + 1
          early_suspends := r.early_suspends + earlysuspend.toNat
          pen := [.ts]
          adc := .ts :: r.adc
          ts_freed := false }

section Probe

variable {earlysuspend : Bool} {m : Met} {r r' : Resources} {ret : Int}

/-- What is held when the clock runs. -/
def Resources.clocked (r : Resources) : Resources :=
  { r with
    region := true
    mappings := r.mappings + 1
    clk_refs := r.clk_refs + 1
    clk_enables := r.clk_enables + 1 }

/-- What is held when the input device is there, too, with handlers of the early suspend and the lines. -/
def Resources.allocated (r : Resources) (early_suspends : Nat) (pen adc : List DevId) : Resources :=
  { r.clocked with
    infos := r.infos + 1
    inputs := r.inputs + 1
    early_suspends := early_suspends
    pen := pen
    adc := adc
    ts_freed := false }

theorem err_alloc_clocked (ret : Int) (hfree : r.region = false) (infos : Int) (ts_freed : Bool) :
    err_alloc ret { r.clocked with infos := infos, ts_freed := ts_freed } =
      some (ret, { r with infos := infos, ts_freed := ts_freed }) := by
  unfold err_alloc err_clk err_map err_req Resources.clocked
  simp [hfree]

theorem err_irq_allocated (ret : Int) (hfree : r.region = false) (early_suspends : Nat) (pen adc : List DevId) :
    err_irq ret (r.allocated early_suspends pen adc) =
      some (ret, { r with early_suspends := early_suspends, pen := pen, adc := adc, ts_freed := true }) := by
  unfold err_irq err_alloc err_clk err_map err_req Resources.allocated Resources.clocked
  simp [hfree]

theorem probe_irqs_cases (hs : m.Suspends) (hfree : r.region = false)
    (heq : probe_irqs m (r.allocated (r.early_suspends + earlysuspend.toNat) r.pen r.adc) = some (ret, r')) :
    Probed earlysuspend m r ret r' := by
  unfold probe_irqs at heq
  split at heq
  next hpen =>
    cases (err_irq_allocated (- ENOENT) hfree _ r.pen r.adc).symm.trans heq
    exact .pen hs hfree (fun hp ↦ by simpa [hpen] using hp.1.2.1) (Or.inl rfl)
  next hpen =>
    split at heq
    next hreq =>
      cases (err_irq_allocated (- EIO) hfree _ r.pen r.adc).symm.trans heq
      refine .pen hs hfree (fun hp ↦ ?_) (Or.inr rfl)
      rcases hreq with hbusy | hmine
      · simpa [hbusy] using hp.1.2.2
      · exact hmine hp.2
    next hreq =>
      rw [not_or, not_not] at hreq
      have hp : m.Pen := ⟨hs, by simpa using hpen, by simpa using hreq.1⟩
      have hnil : r.pen = [] := hreq.2
      dsimp only at heq
      split at heq
      next hadc =>
        cases (err_irq_allocated (- ENOENT) hfree _ (.ts :: r.pen) r.adc).symm.trans heq
        rw [hnil]
        exact .adc hp hfree hnil (fun hboth ↦ by simpa [hadc] using hboth.1) (Or.inl rfl)
      next hadc =>
        split at heq
        next hreq' =>
          cases (err_irq_allocated (- EIO) hfree _ (.ts :: r.pen) r.adc).symm.trans heq
          rw [hnil]
          exact .adc hp hfree hnil (fun hboth ↦ by simpa [hreq'] using hboth.2) (Or.inr rfl)
        next hreq' =>
          split at heq
          next hreg =>
            cases (err_irq_allocated (- EIO) hfree _ (.ts :: r.pen)
              (free_irq .dev (free_irq .dev (.ts :: r.adc)))).symm.trans heq
            rw [hnil]
            exact .register hp hfree hnil (by simpa using hreq') hreg
          next hreg =>
            cases heq
            have hable : m.Able := ⟨hp, by simpa using hadc, by simpa using hreq', by simpa using hreg⟩
            have hbound : Probed earlysuspend m r 0 _ := .bound hable hfree hnil
            rwa [← hnil] at hbound

theorem probe_input_cases (hb : m.Begins) (hfree : r.region = false)
    (heq : probe_input earlysuspend m r.clocked = some (ret, r')) : Probed earlysuspend m r ret r' := by
  unfold probe_input at heq
  dsimp only at heq
  split at heq
  next hinput =>
    cases (err_alloc_clocked (- ENOMEM) hfree (if m.kzalloc = true then r.infos + 1 else r.infos)
      false).symm.trans heq
    exact .input hb hfree hinput
  next hinput =>
    split at heq
    next => cases heq
    next hkz =>
      have hkz : m.kzalloc = true := by simpa using hkz
      refine probe_irqs_cases ⟨hb, hkz, by simpa using hinput⟩ hfree ?_
      rw [if_pos hkz] at heq
      cases earlysuspend with
      | false => exact heq
      | true => exact heq

/-- Every way through the probe. -/
theorem s3c_ts_probe_cases (heq : s3c_ts_probe earlysuspend m r = some (ret, r')) :
    Probed earlysuspend m r ret r' := by
  unfold s3c_ts_probe at heq
  dsimp only at heq
  split at heq
  next hmem =>
    cases heq
    exact .early (fun hb ↦ by simpa [hmem] using hb.1.1) (by decide) fun h ↦ absurd h (by decide)
  next hmem =>
    split at heq
    next hregion =>
      cases heq
      refine .early (fun hb ↦ ?_) (by decide) fun h ↦ absurd h (by decide)
      rcases hregion with hbusy | hmine
      · simpa [hbusy] using hb.1.2.1
      · simpa [hmine] using hb.2
    next hregion =>
      obtain ⟨hfree, hmine⟩ : m.region_free = true ∧ r.region = false := by
        rw [not_or] at hregion
        exact ⟨by simpa using hregion.1, by simpa using hregion.2⟩
      split at heq
      next hmap =>
        have hsame : err_map (- EINVAL) { r with region := true } = some (- EINVAL, r) := by
          unfold err_map err_req
          simp [← hmine]
        cases hsame.symm.trans heq
        exact .early (fun hb ↦ by simpa [hmap] using hb.1.2.2.1) (by decide) fun h ↦ absurd h (by decide)
      next hmap =>
        split at heq
        next hclk =>
          have hsame : err_clk m.clk_get { r with region := true, mappings := r.mappings + 1 } =
              some (m.clk_get, r) := by
            unfold err_clk err_map err_req
            simp [← hmine]
          cases hsame.symm.trans heq
          exact .early (fun hb ↦ hclk hb.1.2.2.2) hclk fun _ ↦ hclk
        next hclk =>
          exact probe_input_cases ⟨by simpa using hmem, hfree, by simpa using hmap, by simpa using hclk⟩ hmine heq

theorem error_ne_zero (hret : ret = - ENOENT ∨ ret = - EIO) : ret ≠ 0 ∧ ret ≠ - ENOMEM := by
  rcases hret with rfl | rfl
  · decide
  · decide

theorem Probed.ret_eq_zero_iff (hp : Probed earlysuspend m r ret r') :
    ret = 0 ↔ m.Able ∧ r.region = false ∧ r.pen = [] := by
  cases hp with
  | early hno hret => exact ⟨fun h0 ↦ absurd h0 hret, fun ⟨hable, hfree, _⟩ ↦ absurd ⟨hable.1.1.1, hfree⟩ hno⟩
  | input hb hfree hno =>
    refine ⟨nofun, fun ⟨hable, _⟩ ↦ ?_⟩
    have hyes := hable.1.1.2.2
    rw [hno] at hyes
    cases hyes
  | pen hs hfree hno hret =>
    exact ⟨fun h0 ↦ absurd h0 (error_ne_zero hret).1, fun ⟨hable, _, hpen⟩ ↦ absurd ⟨hable.1, hpen⟩ hno⟩
  | adc hp hfree hpen hno hret =>
    exact ⟨fun h0 ↦ absurd h0 (error_ne_zero hret).1, fun ⟨hable, _⟩ ↦ absurd ⟨hable.2.1, hable.2.2.1⟩ hno⟩
  | register hp hfree hpen hadc hno => exact ⟨nofun, fun ⟨hable, _⟩ ↦ absurd hable.2.2.2 hno⟩
  | bound hable hfree hpen => exact ⟨fun _ ↦ ⟨hable, hfree, hpen⟩, fun _ ↦ rfl⟩

theorem Probed.pen_of_able (hp : Probed earlysuspend m r ret r') (hable : m.Able) (hfree : r.region = false)
    (hnil : r.pen = []) : r'.pen = [.ts] := by
  cases hp with
  | early hno => exact absurd ⟨hable.1.1.1, hfree⟩ hno
  | input _ _ hno => simpa [hno] using hable.1.1.2.2
  | pen _ _ hno => exact absurd ⟨hable.1, hnil⟩ hno
  | adc => rfl
  | register => rfl
  | bound => rfl

/-- A probe that fails has given back what it has taken exactly when it has not left the memory of `ts`, the
handler of the early suspend or the pen interrupt behind; and the handlers that it leaves are left with a `ts`
that has been freed. -/
theorem failed_probe_leaves_iff (heq : s3c_ts_probe earlysuspend m r = some (ret, r')) (hret : ret ≠ 0) :
    (r' = { r with ts_freed := r'.ts_freed } ↔ ¬(r.region = false ∧
      (m.LeavesInfo ∨ m.Suspends ∧ earlysuspend = true ∨ m.Pen ∧ r.pen = []))) ∧
    (r'.early_suspends ≠ r.early_suspends ∨ r'.pen ≠ r.pen ∨ r'.adc ≠ r.adc → r'.ts_freed = true) := by
  have hp := s3c_ts_probe_cases heq
  cases hp with
  | early hno =>
    refine ⟨⟨fun _ hl ↦ ?_, fun _ ↦ rfl⟩, fun hne ↦ by simp at hne⟩
    obtain ⟨hfree, hl | ⟨hs, _⟩ | ⟨hpen, _⟩⟩ := hl
    · exact hno ⟨hl.1, hfree⟩
    · exact hno ⟨hs.1, hfree⟩
    · exact hno ⟨hpen.1.1, hfree⟩
  | input hb hfree hno =>
    have hs : ¬m.Suspends := fun hs ↦ by simpa [hno] using hs.2.2
    have hl : m.LeavesInfo ↔ m.kzalloc = true := ⟨fun hl ↦ hl.2.1, fun hkz ↦ ⟨hb, hkz, hno⟩⟩
    refine ⟨⟨fun hsame hleft ↦ ?_, fun hno ↦ ?_⟩, fun hne ↦ by simp at hne⟩
    · obtain ⟨-, hleft | ⟨hs', -⟩ | ⟨hpen, -⟩⟩ := hleft
      · have hinfos := congrArg Resources.infos hsame
        dsimp only at hinfos
        rw [if_pos hleft.2.1] at hinfos
        omega
      · exact hs hs'
      · exact hs hpen.1
    · have hkz : ¬m.kzalloc = true := fun hkz ↦ hno ⟨hfree, Or.inl (hl.mpr hkz)⟩
      rw [if_neg hkz]
  | pen hs hfree hno =>
    refine ⟨⟨fun hsame hleft ↦ ?_, fun hleft ↦ ?_⟩, fun _ ↦ rfl⟩
    · obtain ⟨-, hl | ⟨-, hearly⟩ | hpen⟩ := hleft
      · simpa [hl.2.2] using hs.2.2
      · have hsuspends := congrArg Resources.early_suspends hsame
        dsimp only at hsuspends
        rw [hearly] at hsuspends
        exact absurd hsuspends (Nat.succ_ne_self _)
      · exact hno hpen
    · cases earlysuspend with
      | false => rfl
      | true => exact absurd ⟨hfree, Or.inr (Or.inl ⟨hs, rfl⟩)⟩ hleft
  | adc hpen hfree hnil =>
    refine ⟨⟨fun hsame ↦ ?_, fun hno ↦ absurd ⟨hfree, Or.inr (Or.inr ⟨hpen, hnil⟩)⟩ hno⟩, fun _ ↦ rfl⟩
    have hlines := congrArg Resources.pen hsame
    rw [show r.pen = [] from hnil] at hlines
    cases hlines
  | register hpen hfree hnil =>
    refine ⟨⟨fun hsame ↦ ?_, fun hno ↦ absurd ⟨hfree, Or.inr (Or.inr ⟨hpen, hnil⟩)⟩ hno⟩, fun _ ↦ rfl⟩
    have hlines := congrArg Resources.pen hsame
    rw [show r.pen = [] from hnil] at hlines
    cases hlines
  | bound => exact absurd rfl hret

-- Without a conversion interrupt, the pen interrupt is left behind.
theorem failed_probe_leaves_pen :
    ∃ m r', s3c_ts_probe false m Resources.none = some (- ENOENT, r') ∧ r'.pen = [.ts] ∧ r'.ts_freed = true ∧
      ¬r' = { Resources.none with ts_freed := r'.ts_freed } := by
  let m : Met := ⟨true, true, true, 0, true, true, true, true, false, false, 0⟩
  have heq : s3c_ts_probe false m Resources.none =
      some (- ENOENT, { Resources.none with pen := [.ts], ts_freed := true }) := rfl
  refine ⟨m, _, heq, rfl, rfl, fun hsame ↦ ?_⟩
  refine (failed_probe_leaves_iff heq (by decide)).1.mp hsame ⟨rfl, Or.inr (Or.inr ⟨?_, rfl⟩)⟩
  exact ⟨⟨⟨rfl, rfl, rfl, rfl⟩, rfl, rfl⟩, rfl, rfl⟩

end Probe

section Runs

/-- A probe that gets the pen interrupt unless an earlier one has it. -/
def TakesPen : LoadEvent Met → Prop
  | .load m _ => m.Pen
  | .unload => False

def Able : LoadEvent Met → Prop
  | .load m _ => m.Able
  | .unload => False

/-- A probe whose `ts` is not freed. -/
def keepsInfo : LoadEvent Met → Bool
  | .load m ret => decide (ret = 0) || (decide (ret = - ENOMEM) && decide (m.clk_get = 0) && m.kzalloc)
  | .unload => false

/-- What is so in every run, while the driver is bound (`n = 1`) and while it is not. -/
structure Balanced (n : Int) (es : List (LoadEvent Met)) (r : Resources) : Prop where
  region : r.region = decide (0 < es.countP LoadEvent.succeeded)
  pen : r.pen = [] ∧ (∀ f ∈ es, ¬TakesPen f) ∨ r.pen = [.ts] ∧ ∃ f ∈ es, TakesPen f
  mapped : r.mappings = n ∧ r.clk_refs = n ∧ r.clk_enables = n ∧ r.inputs = n ∧ r.registered = n
  infos : r.infos = es.countP keepsInfo
  outcomes : Always (fun pre e ↦ e.succeeded = true ↔ Able e ∧ ∀ f ∈ pre, ¬TakesPen f) es

variable {earlysuspend : Bool} {es : List (LoadEvent Met)} {w : Loading Resources} {m : Met}
  {r r' : Resources} {ret : Int} {n : Int}

theorem s3c_ts_remove_eq : s3c_ts_remove earlysuspend r =
    { r with
      pen := free_irq .dev r.pen
      adc := free_irq .dev r.adc
      clk_enables := r.clk_enables - 1
      clk_refs := r.clk_refs - 1
      early_suspends := r.early_suspends - earlysuspend.toNat
      registered := r.registered - 1
      inputs := r.inputs - 1
      mappings := r.mappings - 1 } := by
  cases earlysuspend <;> rfl

theorem Balanced.unload (hb : Balanced 1 es r) :
    Balanced 0 (es ++ [.unload]) (s3c_ts_remove earlysuspend r) := by
  obtain ⟨hregion, hpen, hmapped, hinfos, hout⟩ := hb
  rw [s3c_ts_remove_eq]
  refine ⟨?_, ?_, ?_, ?_, ?_⟩
  · simp [hregion, LoadEvent.succeeded]
  · rcases hpen with ⟨hnil, hno⟩ | ⟨hts, f, hf, hpen⟩
    · refine Or.inl ⟨by simp [hnil, free_irq], fun f hf ↦ ?_⟩
      rcases List.mem_append.mp hf with hf | hf
      · exact hno f hf
      · rw [List.mem_singleton.mp hf]
        exact id
    · exact Or.inr ⟨by simp [hts, free_irq], f, List.mem_append_left _ hf, hpen⟩
  · simp [hmapped]
  · simp [hinfos, keepsInfo]
  · rw [always_snoc]
    exact ⟨hout, fun hno ↦ absurd hno (by decide), fun hable ↦ hable.1.elim⟩

/-- As long as no probe has taken the pen interrupt none has succeeded. -/
theorem Balanced.free_iff (hb : Balanced n es r) :
    r.region = false ∧ r.pen = [] ↔ ∀ f ∈ es, ¬TakesPen f := by
  constructor
  · rintro ⟨-, hnil⟩
    rcases hb.pen with ⟨-, hno⟩ | ⟨hts, -⟩
    · exact hno
    · rw [hnil] at hts
      cases hts
  · intro hno
    have hnone : es.countP LoadEvent.succeeded = 0 := by
      refine List.countP_eq_zero.mpr fun e he hsucc ↦ ?_
      obtain ⟨pre, post, rfl⟩ := List.append_of_mem he
      have hable := ((hb.outcomes pre e post rfl).mp hsucc).1
      cases e with
      | load m ret => exact hno _ he hable.1
      | unload => exact hable
    refine ⟨?_, ?_⟩
    · rw [hb.region, hnone]
      rfl
    · rcases hb.pen with ⟨hnil, -⟩ | ⟨-, f, hf, htakes⟩
      · exact hnil
      · exact absurd htakes (hno f hf)

theorem Balanced.keep_pen (hb : Balanced n es r) (hno : r.region = false → r.pen = [] → ¬m.Pen) :
    r.pen = [] ∧ (∀ f ∈ es ++ [.load m ret], ¬TakesPen f) ∨
      r.pen = [.ts] ∧ ∃ f ∈ es ++ [.load m ret], TakesPen f := by
  rcases hb.pen with ⟨hnil, hnone⟩ | ⟨hts, f, hf, htakes⟩
  · refine Or.inl ⟨hnil, fun f hf ↦ ?_⟩
    rcases List.mem_append.mp hf with hf | hf
    · exact hnone f hf
    · rw [List.mem_singleton.mp hf]
      exact hno (hb.free_iff.mpr hnone).1 hnil
  · exact Or.inr ⟨hts, f, List.mem_append_left _ hf, htakes⟩

theorem takes_pen (hpen : m.Pen) :
    ([.ts] : List DevId) = [] ∧ (∀ f ∈ es ++ [.load m ret], ¬TakesPen f) ∨
      ([.ts] : List DevId) = [.ts] ∧ ∃ f ∈ es ++ [.load m ret], TakesPen f :=
  Or.inr ⟨rfl, .load m ret, List.mem_append_right _ (List.mem_singleton_self _), hpen⟩

theorem Balanced.load (hb : Balanced 0 es r) (hp : Probed earlysuspend m r ret r') :
    Balanced (if ret = 0 then 1 else 0) (es ++ [.load m ret]) r' := by
  have hfree := hb.free_iff
  have hsucc : (LoadEvent.load m ret).succeeded = true ↔ ret = 0 := decide_eq_true_iff
  have hout : Always (fun pre e ↦ e.succeeded = true ↔ Able e ∧ ∀ f ∈ pre, ¬TakesPen f)
      (es ++ [.load m ret]) := by
    rw [always_snoc]
    exact ⟨hb.outcomes, (hsucc.trans hp.ret_eq_zero_iff).trans (and_congr_right fun _ ↦ hfree)⟩
  -- a probe that fails
  have hfail : ret ≠ 0 → r'.region = r.region →
      (r'.mappings = 0 ∧ r'.clk_refs = 0 ∧ r'.clk_enables = 0 ∧ r'.inputs = 0 ∧ r'.registered = 0) →
      r'.infos = r.infos + (if keepsInfo (.load m ret) = true then 1 else 0) →
      (r'.pen = [] ∧ (∀ f ∈ es ++ [.load m ret], ¬TakesPen f) ∨
        r'.pen = [.ts] ∧ ∃ f ∈ es ++ [.load m ret], TakesPen f) →
      Balanced (if ret = 0 then 1 else 0) (es ++ [.load m ret]) r' := by
    intro hret hregion hmapped hinfos hpen
    rw [if_neg hret]
    refine ⟨?_, hpen, hmapped, ?_, hout⟩
    · rw [hregion, hb.region]
      simp [LoadEvent.succeeded, hret]
    · rw [hinfos, hb.infos, List.countP_append, List.countP_singleton]
      split <;> simp
  have hnone : ret ≠ 0 → ret ≠ - ENOMEM → keepsInfo (.load m ret) = false := by
    intro hret hmem
    simp [keepsInfo, hret, hmem]
  cases hp with
  | early hno hret hmem =>
    refine hfail hret rfl hb.mapped ?_ (hb.keep_pen fun hfr _ hpen ↦ hno ⟨hpen.1.1, hfr⟩)
    have hkeeps : keepsInfo (.load m ret) = false := by
      by_cases hm : ret = - ENOMEM
      · simp [keepsInfo, hret, hmem hm]
      · exact hnone hret hm
    simp [hkeeps]
  | input hbg hfr hno =>
    refine hfail (by decide) rfl hb.mapped ?_ (hb.keep_pen fun _ _ hpen ↦ by simpa [hno] using hpen.1.2.2)
    have hkeeps : keepsInfo (.load m (- ENOMEM)) = m.kzalloc := by
      simp [keepsInfo, hbg.2.2.2, ENOMEM]
    rw [hkeeps]
    dsimp only
    split <;> simp
  | pen hs hfr hno hret =>
    obtain ⟨h0, hm⟩ := error_ne_zero hret
    refine hfail h0 rfl hb.mapped ?_ (hb.keep_pen fun _ hnil hpen ↦ hno ⟨hpen, hnil⟩)
    simp [hnone h0 hm]
  | adc hpen hfr hnil hno hret =>
    obtain ⟨h0, hm⟩ := error_ne_zero hret
    refine hfail h0 rfl hb.mapped ?_ (takes_pen hpen)
    simp [hnone h0 hm]
  | register hpen hfr hnil hadc hno =>
    refine hfail (by decide) rfl hb.mapped ?_ (takes_pen hpen)
    simp [hnone (show (- EIO : Int) ≠ 0 by decide) (by decide)]
  | bound hable hfr hnil =>
    obtain ⟨hmappings, hrefs, henables, hinputs, hregistered⟩ := hb.mapped
    rw [if_pos rfl]
    refine ⟨?_, takes_pen hable.1, ?_, ?_, hout⟩
    · simp [LoadEvent.succeeded]
    · simp [hmappings, hrefs, henables, hinputs, hregistered]
    · simp [hb.infos, keepsInfo]

theorem balanced_none : Balanced 0 [] Resources.none where
  region := rfl
  pen := Or.inl ⟨rfl, by simp⟩
  mapped := ⟨rfl, rfl, rfl, rfl, rfl⟩
  infos := rfl
  outcomes := always_nil

/-- In any sequence of probes and removes, a probe succeeds when everything that it calls does and no probe
before it has got the pen interrupt: at most one.  The mapping, the clock and the input device are held while
the driver is bound; the region and the memory of `ts` stay. -/
theorem screen_bound_once (hr : Run (s3c_ts_driver earlysuspend).Step ⟨Resources.none, false⟩ es w) :
    Balanced (if w.loaded = true then 1 else 0) es w.sys ∧ es.countP LoadEvent.succeeded ≤ 1 := by
  obtain ⟨hout, hin⟩ := Driver.invariant (Balanced 0) (Balanced 1) balanced_none
    (fun es m r r' hb heq ↦ by simpa using hb.load (s3c_ts_probe_cases heq))
    (fun es m r ret r' hb heq hret ↦ by simpa [hret] using hb.load (s3c_ts_probe_cases heq))
    (fun es r hb ↦ hb.unload) hr
  have hb : Balanced (if w.loaded = true then 1 else 0) es w.sys := by
    cases hw : w.loaded with
    | false => exact hout hw
    | true => exact hin hw
  refine ⟨hb, (Driver.at_most_once (fun r : Resources ↦ .ts ∈ r.pen) ?_ ?_ ?_ hr).1⟩
  · intro m r ret r' hts heq
    have hp := s3c_ts_probe_cases heq
    have hnot : r.pen ≠ [] := fun hnil ↦ by simp [hnil] at hts
    refine ⟨fun hret ↦ hnot (hp.ret_eq_zero_iff.mp hret).2.2, ?_⟩
    cases hp with
    | early => exact hts
    | input => exact hts
    | pen => exact hts
    | adc _ _ hnil => exact absurd hnil hnot
    | register _ _ hnil => exact absurd hnil hnot
    | bound _ _ hnil => exact absurd hnil hnot
  · intro r hts
    show .ts ∈ (s3c_ts_remove earlysuspend r).pen
    rw [s3c_ts_remove_eq]
    exact (List.mem_erase_of_ne (by decide)).mpr hts
  · intro m r r' heq
    have hp := s3c_ts_probe_cases heq
    obtain ⟨hable, hfree, hnil⟩ := hp.ret_eq_zero_iff.mp rfl
    rw [Probed.pen_of_able hp hable hfree hnil]
    exact List.mem_singleton_self _

/-- A probe succeeds, the driver is removed and probed again. -/
theorem screen_bound_once_probed_again :
    ∃ es w, Run (s3c_ts_driver true).Step ⟨Resources.none, false⟩ es w ∧ es.length = 3 ∧ w.loaded = false ∧
      Balanced (if w.loaded = true then 1 else 0) es w.sys ∧ es.countP LoadEvent.succeeded ≤ 1 := by
  let m : Met := ⟨true, true, true, 0, true, true, true, true, true, true, 0⟩
  let r : Resources := ⟨true, 1, 1, 1, 1, 1, 1, 1, [.ts], [.ts], false⟩
  let r' : Resources := ⟨true, 0, 0, 0, 1, 0, 0, 0, [.ts], [.ts], false⟩
  have hprobe : (s3c_ts_driver true).load m Resources.none = some (0, r) := rfl
  have hremove : (s3c_ts_driver true).unload r = r' := rfl
  have hagain : (s3c_ts_driver true).load m r' = some (- ENOENT, r') := rfl
  have h₁ : Run (s3c_ts_driver true).Step ⟨Resources.none, false⟩ [.load m 0] ⟨r, true⟩ :=
    .snoc .nil (.load m hprobe)
  have h₂ := h₁.snoc .unload
  rw [hremove] at h₂
  have h₃ := h₂.snoc (.load m hagain)
  exact ⟨_, _, h₃, rfl, rfl, screen_bound_once h₃⟩

end Runs

end OK210Drivers.Touch
