import Mathlib.Data.Int.Basic
import OK210Drivers.Library.Loading
import OK210Drivers.RamDisk.Reveal

/-!
# Loading and unloading the RAM disk

`rb_init` gives back what it has taken when it fails.  It does not see that `register_blkdev` fails: the error is
kept in `rb_major`, which is unsigned, and is not `<= 0` there.
-/

open Library

namespace OK210Drivers.RamDisk

def EBUSY : Int := 16

/-- What `rb_init` meets: the memory that `vmalloc` finds, the result of `register_blkdev` for a new major, and
whether there is a queue and a disk. -/
structure Met where
  vmalloc : Option (Mem UInt8)
  register_blkdev : BitVec 32
  blk_init_queue : Bool
  alloc_disk : Bool

/-- The static data, and what is held: memory areas, the major number, queues, disks and disks that have been
added; and how often a major number has been given back that was not held. -/
structure Module where
  dev_data : Option (Mem UInt8)
  rb_major : BitVec 32
  areas : Int
  major : Bool
  queues : Int
  disks : Int
  added : Int
  strays : Nat

def Module.none : Module := ⟨Option.none, 0, 0, false, 0, 0, 0, 0⟩

def ramdevice_cleanup (b : Module) : Module := { b with areas := b.areas - 1 }

def unregister_blkdev (b : Module) : Module :=
  if b.major = true then { b with major := false } else { b with strays := b.strays + 1 }

-- The number that is stored is the negative error when no major number is free.
def register_blkdev (major : BitVec 32) (b : Module) : Module :=
  { b with rb_major := major, major := decide (0 < major.toInt) }

def rb_init (m : Met) (b : Module) : Int × Module :=
  let init := ramdevice_init m.vmalloc
  if init.1 < 0 then (init.1, { b with dev_data := init.2 })
  else
    let b := { b with dev_data := init.2, areas := b.areas + 1 }
    let b := register_blkdev m.register_blkdev b
    if b.rb_major ≤ 0 then (- EBUSY, ramdevice_cleanup b)
    else if m.blk_init_queue = false then (- ENOMEM, ramdevice_cleanup (unregister_blkdev b))
    else
      let b := { b with queues := b.queues + 1 }
      if m.alloc_disk = false then
        (- ENOMEM, ramdevice_cleanup (unregister_blkdev { b with queues := b.queues - 1 }))
      else (0, { b with disks := b.disks + 1, added := b.added + 1 })

def rb_cleanup (b : Module) : Module :=
  let b := { b with added := b.added - 1, disks := b.disks - 1, queues := b.queues - 1 }
  ramdevice_cleanup (unregister_blkdev b)

def rb : Driver Module Met := ⟨fun m b ↦ some (rb_init m b), rb_cleanup⟩

/-- Everything but `register_blkdev` succeeds; that does not return 0 for a new major. -/
def Met.Able (m : Met) : Prop :=
  m.vmalloc.isSome = true ∧ m.register_blkdev ≠ 0 ∧ m.blk_init_queue = true ∧ m.alloc_disk = true

/-- A load that goes on without a major number. -/
def Met.stray (m : Met) : Bool :=
  m.vmalloc.isSome && decide (m.register_blkdev ≠ 0) && decide ¬0 < m.register_blkdev.toInt

def strayLoad : LoadEvent Met → Bool
  | .load m _ => m.stray
  | .unload => false

/-- A load succeeds when everything but `register_blkdev` does. -/
def Truthful : LoadEvent Met → Prop
  | .load m ret => ret = 0 ↔ m.Able
  | .unload => True

/-- Nothing is held. -/
structure Unloaded (es : List (LoadEvent Met)) (b : Module) : Prop where
  held : b.areas = 0 ∧ b.major = false ∧ b.queues = 0 ∧ b.disks = 0 ∧ b.added = 0
  strays : b.strays = es.countP strayLoad
  outcomes : ∀ e ∈ es, Truthful e

/-- One of each is held, but for the major number of a load that has gone on without. -/
structure Loaded (es : List (LoadEvent Met)) (b : Module) : Prop where
  held : b.areas = 1 ∧ b.queues = 1 ∧ b.disks = 1 ∧ b.added = 1
  major : b.major = decide (0 < b.rb_major.toInt)
  strays : b.strays + (if b.major = true then 0 else 1) = es.countP strayLoad
  outcomes : ∀ e ∈ es, Truthful e
  image : ∃ mem, b.dev_data = some (copy_mbr_n_br mem)

section Loads

variable {es : List (LoadEvent Met)} {w : Loading Module} {m : Met} {b b' : Module} {ret : Int}

theorem unregister_blkdev_eq (b : Module) : unregister_blkdev b =
    { b with major := false, strays := b.strays + if b.major = true then 0 else 1 } := by
  obtain ⟨dev_data, rb_major, areas, major, queues, disks, added, strays⟩ := b
  cases major <;> rfl

theorem outcomes_snoc {e : LoadEvent Met} (h : ∀ e ∈ es, Truthful e) (he : Truthful e) :
    ∀ f ∈ es ++ [e], Truthful f := by
  intro f hf
  rcases List.mem_append.mp hf with hf | hf
  · exact h f hf
  · rw [List.mem_singleton.mp hf]
    exact he

/-- What is held when the major number has been asked for. -/
def Module.registered (mem : Mem UInt8) (m : Met) (b : Module) : Module :=
  register_blkdev m.register_blkdev { b with dev_data := some (copy_mbr_n_br mem), areas := b.areas + 1 }

theorem rb_init_registered {mem : Mem UInt8} (hmem : m.vmalloc = some mem) (hne : m.register_blkdev ≠ 0) :
    rb_init m b =
      if m.blk_init_queue = false then
        (- ENOMEM, ramdevice_cleanup (unregister_blkdev (b.registered mem m)))
      else if m.alloc_disk = false then
        (- ENOMEM, ramdevice_cleanup (unregister_blkdev { b.registered mem m with queues := b.queues + 1 - 1 }))
      else
        (0, { b.registered mem m with
          queues := b.queues + 1, disks := b.disks + 1, added := b.added + 1 }) := by
  unfold rb_init
  rw [hmem]
  refine (if_neg (show ¬(RB_DEVICE_SIZE : Int) < 0 by decide)).trans ?_
  exact if_neg fun hle ↦ hne (BitVec.le_zero_iff.mp hle)

/-- A load that fails leaves nothing behind, and one that succeeds one of each. -/
theorem rb_init_cases (hb : Unloaded es b) (heq : rb_init m b = (ret, b')) :
    (ret = 0 → Loaded (es ++ [.load m ret]) b') ∧ (ret ≠ 0 → Unloaded (es ++ [.load m ret]) b') := by
  obtain ⟨⟨hareas, hmajor, hqueues, hdisks, hadded⟩, hstrays, hout⟩ := hb
  cases hmem : m.vmalloc with
  | none =>
    unfold rb_init at heq
    rw [hmem] at heq
    cases heq
    refine ⟨nofun, fun _ ↦ ⟨⟨hareas, hmajor, hqueues, hdisks, hadded⟩, ?_, outcomes_snoc hout ?_⟩⟩
    · simp [hstrays, strayLoad, Met.stray, hmem]
    · exact ⟨nofun, fun hable ↦ by simpa [hmem] using hable.1⟩
  | some mem =>
    by_cases hzero : m.register_blkdev = 0
    · have hbusy : rb_init m b = (- EBUSY, ramdevice_cleanup (b.registered mem m)) := by
        unfold rb_init
        rw [hmem]
        refine (if_neg (show ¬(RB_DEVICE_SIZE : Int) < 0 by decide)).trans (if_pos ?_)
        exact BitVec.le_zero_iff.mpr hzero
      cases hbusy.symm.trans heq
      refine ⟨nofun, fun _ ↦ ⟨?_, ?_, outcomes_snoc hout ⟨nofun, fun hable ↦ absurd hzero hable.2.1⟩⟩⟩
      · simp [ramdevice_cleanup, Module.registered, register_blkdev, hzero, hareas, hqueues, hdisks, hadded]
      · simp [ramdevice_cleanup, Module.registered, register_blkdev, hstrays, strayLoad, Met.stray, hzero]
    · have hstray : strayLoad (.load m ret) = !decide (0 < m.register_blkdev.toInt) := by
        show (m.vmalloc.isSome && decide (m.register_blkdev ≠ 0) && decide ¬0 < m.register_blkdev.toInt) = _
        rw [hmem, decide_eq_true hzero, decide_not]
        rfl
      -- both ways out give the area, the queue and the major number back
      have hfail : ∀ queues : Int, queues = 0 → ret = - ENOMEM → ¬m.Able →
          b' = ramdevice_cleanup (unregister_blkdev { b.registered mem m with queues := queues }) →
          (ret = 0 → Loaded (es ++ [.load m ret]) b') ∧ (ret ≠ 0 → Unloaded (es ++ [.load m ret]) b') := by
        rintro queues rfl rfl hno rfl
        refine ⟨nofun, fun _ ↦ ⟨?_, ?_, outcomes_snoc hout ⟨nofun, fun hable ↦ absurd hable hno⟩⟩⟩
        · simp [unregister_blkdev_eq, ramdevice_cleanup, Module.registered, register_blkdev, hareas, hdisks, hadded]
        · rw [List.countP_append, List.countP_singleton, hstray, ← hstrays, unregister_blkdev_eq]
          show b.strays + (if decide (0 < m.register_blkdev.toInt) = true then 0 else 1) = _
          cases decide (0 < m.register_blkdev.toInt) <;> rfl
      rw [rb_init_registered hmem hzero] at heq
      split at heq
      next hqueue =>
        obtain ⟨rfl, rfl⟩ := Prod.mk.injEq .. ▸ heq
        exact hfail b.queues hqueues rfl (fun hable ↦ by simpa [hqueue] using hable.2.2.1) rfl
      next hqueue =>
        split at heq
        next hdisk =>
          obtain ⟨rfl, rfl⟩ := Prod.mk.injEq .. ▸ heq
          exact hfail (b.queues + 1 - 1) (by omega) rfl (fun hable ↦ by simpa [hdisk] using hable.2.2.2) rfl
        next hdisk =>
          obtain ⟨rfl, rfl⟩ := Prod.mk.injEq .. ▸ heq
          have hable : m.Able := ⟨by rw [hmem]; rfl, hzero, by simpa using hqueue, by simpa using hdisk⟩
          refine ⟨fun _ ↦ ⟨?_, rfl, ?_, outcomes_snoc hout ⟨fun _ ↦ hable, fun _ ↦ rfl⟩, mem, rfl⟩,
            fun hne ↦ absurd rfl hne⟩
          · simp [Module.registered, register_blkdev, hareas, hqueues, hdisks, hadded]
          · rw [List.countP_append, List.countP_singleton, hstray, ← hstrays]
            show b.strays + (if decide (0 < m.register_blkdev.toInt) = true then 0 else 1) = _
            cases decide (0 < m.register_blkdev.toInt) <;> rfl

theorem rb_cleanup_unloaded (hb : Loaded es b) : Unloaded (es ++ [.unload]) (rb_cleanup b) := by
  obtain ⟨⟨hareas, hqueues, hdisks, hadded⟩, hmajor, hstrays, hout, -⟩ := hb
  unfold rb_cleanup ramdevice_cleanup
  simp only [unregister_blkdev_eq]
  refine ⟨?_, ?_, outcomes_snoc hout trivial⟩
  · simp [hareas, hqueues, hdisks, hadded]
  · simp [strayLoad, hstrays]

/-- In any sequence of loads and unloads, with any failures, nothing is held while the module is not loaded
and one of each while it is; but a load succeeds when everything but `register_blkdev` does, and each one
that has no major number gives one back that is not its own. -/
theorem ram_disk_balanced (hr : Run rb.Step ⟨Module.none, false⟩ es w) :
    (w.loaded = false → Unloaded es w.sys) ∧ (w.loaded = true → Loaded es w.sys) := by
  refine Driver.invariant Unloaded Loaded ⟨⟨rfl, rfl, rfl, rfl, rfl⟩, rfl, by simp⟩ ?_ ?_ ?_ hr
  · exact fun es m b b' hb heq ↦ (rb_init_cases hb (Option.some.inj heq)).1 rfl
  · exact fun es m b ret b' hb heq hret ↦ (rb_init_cases hb (Option.some.inj heq)).2 hret
  · exact fun es b hb ↦ rb_cleanup_unloaded hb

/-- A load without a major number, and the unload. -/
theorem ram_disk_balanced_no_major :
    ∃ es w, Run rb.Step ⟨Module.none, false⟩ es w ∧ es.countP LoadEvent.succeeded = 1 ∧ w.loaded = false ∧
      w.sys.strays = 1 ∧ (w.loaded = false → Unloaded es w.sys) ∧ (w.loaded = true → Loaded es w.sys) := by
  let m : Met := ⟨some fun _ ↦ 0, - 16, true, true⟩
  have h₁ : Run rb.Step ⟨Module.none, false⟩ [.load m 0] ⟨(rb_init m Module.none).2, true⟩ :=
    .snoc .nil (.load m rfl)
  have h₂ := h₁.snoc .unload
  exact ⟨_, _, h₂, rfl, rfl, rfl, ram_disk_balanced h₂⟩

end Loads

end OK210Drivers.RamDisk
