import Mathlib.Tactic.Ring
import OK210Drivers.Library.Runs
import OK210Drivers.RamDisk.Device

/-!
# The RAM disk is a flat array of sectors

The loop of `rb_transfer` is described by what it has moved: the whole sectors of the segments walked
so far, one after the other from the start sector on.  Everything about requests, their
segmentations and runs of requests follows from that.
-/

open Library

namespace OK210Drivers.RamDisk

-- The bytes the loop moves for a segment list: a partial sector at a segment's end is left out.
def wholeBytes (segs : List BioVec) : List UInt8 :=
  segs.flatMap fun bv ↦ bv.buffer.load 0 (bv.bv_len / RB_SECTOR_SIZE * RB_SECTOR_SIZE)

-- `ret` after the loop.
def status (ret : Int) (segs : List BioVec) : Int :=
  if ∀ bv ∈ segs, RB_SECTOR_SIZE ∣ bv.bv_len then ret else - EIO

-- The segments after a read from the byte offset `p` on.
def filled (dev_data : Mem UInt8) : Nat → List BioVec → List BioVec
  | _, [] => []
  | p, bv :: bvs =>
    let n := bv.bv_len / RB_SECTOR_SIZE * RB_SECTOR_SIZE
    { bv with buffer := bv.buffer.store 0 (dev_data.load p n) } :: filled dev_data (p + n) bvs

@[simp] theorem sectors_nil : sectors [] = 0 := rfl

@[simp] theorem sectors_cons (bv : BioVec) (bvs : List BioVec) :
    sectors (bv :: bvs) = bv.bv_len / RB_SECTOR_SIZE + sectors bvs := rfl

theorem status_cons (ret : Int) (bv : BioVec) (bvs : List BioVec) :
    status (if bv.bv_len % RB_SECTOR_SIZE ≠ 0 then - EIO else ret) bvs = status ret (bv :: bvs) := by
  simp only [status, List.forall_mem_cons, Nat.dvd_iff_mod_eq_zero]
  by_cases hbv : bv.bv_len % RB_SECTOR_SIZE = 0
  · simp [hbv]
  · simp [hbv]

theorem status_eq_zero_iff (segs : List BioVec) :
    status 0 segs = 0 ↔ ∀ bv ∈ segs, RB_SECTOR_SIZE ∣ bv.bv_len := by
  unfold status
  split
  · rename_i h
    exact ⟨fun _ ↦ h, fun _ ↦ rfl⟩
  · rename_i h
    exact ⟨fun he ↦ absurd he (by decide), fun hd ↦ absurd hd h⟩

/-! ## The loop -/

theorem rb_segments_write (start off : Nat) (dev_data : Mem UInt8) (ret : Int)
    (segs : List BioVec) (h : start + off + sectors segs ≤ RB_DEVICE_SIZE) :
    rb_segments .WRITE start dev_data off ret segs =
      some ⟨dev_data.store ((start + off) * RB_SECTOR_SIZE) (wholeBytes segs),
        off + sectors segs, status ret segs, segs⟩ := by
  induction segs generalizing dev_data off ret with
  | nil => simp [rb_segments, wholeBytes, status]
  | cons bv bvs ih =>
    rw [sectors_cons] at h
    have hstep := ih (off + bv.bv_len / RB_SECTOR_SIZE)
      (dev_data.store ((start + off) * RB_SECTOR_SIZE)
        (bv.buffer.load 0 (bv.bv_len / RB_SECTOR_SIZE * RB_SECTOR_SIZE)))
      (if bv.bv_len % RB_SECTOR_SIZE ≠ 0 then - EIO else ret) (by omega)
    have hat : (start + (off + bv.bv_len / RB_SECTOR_SIZE)) * RB_SECTOR_SIZE =
        (start + off) * RB_SECTOR_SIZE +
          (bv.buffer.load 0 (bv.bv_len / RB_SECTOR_SIZE * RB_SECTOR_SIZE)).length := by
      rw [Mem.load_length, ← Nat.add_assoc, Nat.add_mul]
    rw [hat, Mem.store_store_adjacent, status_cons] at hstep
    simp only [rb_segments, rb_copy, ramdevice_write, if_true,
      if_pos (by omega : start + off + bv.bv_len / RB_SECTOR_SIZE ≤ RB_DEVICE_SIZE),
      Option.map_some, Option.bind_eq_bind, Option.bind_some, hstep]
    simp [wholeBytes, Nat.add_assoc]

theorem rb_segments_read (start off : Nat) (dev_data : Mem UInt8) (ret : Int)
    (segs : List BioVec) (h : start + off + sectors segs ≤ RB_DEVICE_SIZE) :
    rb_segments .READ start dev_data off ret segs =
      some ⟨dev_data, off + sectors segs, status ret segs,
        filled dev_data ((start + off) * RB_SECTOR_SIZE) segs⟩ := by
  induction segs generalizing off ret with
  | nil => simp [rb_segments, filled, status]
  | cons bv bvs ih =>
    rw [sectors_cons] at h
    have hstep := ih (off + bv.bv_len / RB_SECTOR_SIZE)
      (if bv.bv_len % RB_SECTOR_SIZE ≠ 0 then - EIO else ret) (by omega)
    rw [← Nat.add_assoc, Nat.add_mul, status_cons] at hstep
    have hdir : (Dir.READ = Dir.WRITE) = False := by simp
    simp only [rb_segments, rb_copy, ramdevice_read, hdir, if_false,
      if_pos (by omega : start + off + bv.bv_len / RB_SECTOR_SIZE ≤ RB_DEVICE_SIZE),
      Option.map_some, Option.bind_eq_bind, Option.bind_some, hstep]
    simp [filled, Nat.add_assoc]

/-! ## Whole requests -/

-- For whole segments nothing is left out.
theorem wholeBytes_eq_bytes {segs : List BioVec} (h : ∀ bv ∈ segs, RB_SECTOR_SIZE ∣ bv.bv_len) :
    wholeBytes segs = bytes segs := by
  unfold wholeBytes bytes
  apply List.flatMap_congr
  intro bv hbv
  rw [Nat.div_mul_cancel (h bv hbv)]

theorem sectors_mul {segs : List BioVec} (h : ∀ bv ∈ segs, RB_SECTOR_SIZE ∣ bv.bv_len) :
    sectors segs * RB_SECTOR_SIZE = (segs.map BioVec.bv_len).sum := by
  induction segs with
  | nil => rfl
  | cons bv bvs ih =>
    rw [List.forall_mem_cons] at h
    rw [sectors_cons, Nat.add_mul, Nat.div_mul_cancel h.1, ih h.2, List.map_cons, List.sum_cons]

theorem sectors_eq_iff {segs : List BioVec} (h : ∀ bv ∈ segs, RB_SECTOR_SIZE ∣ bv.bv_len)
    (n : Nat) : sectors segs = n ↔ (segs.map BioVec.bv_len).sum = RB_SECTOR_SIZE * n := by
  rw [← sectors_mul h, Nat.mul_comm, Nat.mul_right_inj (by decide)]

theorem filled_lengths (dev_data : Mem UInt8) (p : Nat) (segs : List BioVec) :
    (filled dev_data p segs).map BioVec.bv_len = segs.map BioVec.bv_len := by
  induction segs generalizing p with
  | nil => rfl
  | cons bv bvs ih => simp [filled, ih]

theorem filled_bytes (dev_data : Mem UInt8) (p : Nat) {segs : List BioVec}
    (h : ∀ bv ∈ segs, RB_SECTOR_SIZE ∣ bv.bv_len) :
    bytes (filled dev_data p segs) = dev_data.load p (segs.map BioVec.bv_len).sum := by
  induction segs generalizing p with
  | nil => rfl
  | cons bv bvs ih =>
    rw [List.forall_mem_cons] at h
    have hrest := ih (p + bv.bv_len) h.2
    simp only [bytes] at hrest
    simp only [bytes, filled, Nat.div_mul_cancel h.1, List.flatMap_cons, List.map_cons,
      List.sum_cons, Mem.load_add, hrest]
    rw [Mem.load_store_same_of_eq _ _ _ _ (Mem.load_length ..)]

-- The result of `rb_transfer` on a request that stays inside the device.
theorem rb_transfer_eq (dev_data : Mem UInt8) (req : Request) (h : req.Inside) :
    rb_transfer dev_data req = some
      ⟨if sectors req.segs ≠ req.sector_cnt then - EIO else status 0 req.segs,
        if req.dir = .WRITE then dev_data.store req.offset (wholeBytes req.segs) else dev_data,
        if req.dir = .WRITE then req.segs else filled dev_data req.offset req.segs⟩ := by
  have h0 : req.start_sector + 0 + sectors req.segs ≤ RB_DEVICE_SIZE := h
  cases hd : req.dir with
  | READ =>
    simp [rb_transfer, hd, rb_segments_read _ _ dev_data 0 req.segs h0, Request.offset]
  | WRITE =>
    simp [rb_transfer, hd, rb_segments_write _ _ dev_data 0 req.segs h0, Request.offset]

theorem transfer_ret_eq_zero_iff (req : Request) :
    (if sectors req.segs ≠ req.sector_cnt then - EIO else status 0 req.segs) = 0 ↔ req.Whole := by
  by_cases hs : sectors req.segs = req.sector_cnt
  · rw [if_neg (not_not.mpr hs), status_eq_zero_iff, Request.Whole]
    exact ⟨fun hd ↦ ⟨hd, (sectors_eq_iff hd _).mp hs⟩, fun hw ↦ hw.1⟩
  · rw [if_pos hs]
    exact ⟨fun he ↦ absurd he (by decide), fun hw ↦ absurd ((sectors_eq_iff hw.1 _).mpr hw.2) hs⟩

/-- A successful write stores the concatenation of its segments over its sectors. -/
theorem rb_transfer_write {dev_data : Mem UInt8} {req : Request} (h : req.Inside)
    (hw : req.Whole) (hd : req.dir = .WRITE) :
    rb_transfer dev_data req =
      some ⟨0, dev_data.store req.offset (bytes req.segs), req.segs⟩ := by
  rw [rb_transfer_eq dev_data req h, (transfer_ret_eq_zero_iff req).mpr hw, if_pos hd, if_pos hd,
    wholeBytes_eq_bytes hw.1]

/-- A successful read fills its segments from its sectors and leaves the disk alone. -/
theorem rb_transfer_read {dev_data : Mem UInt8} {req : Request} (h : req.Inside)
    (hw : req.Whole) (hd : req.dir = .READ) :
    rb_transfer dev_data req = some ⟨0, dev_data, filled dev_data req.offset req.segs⟩ := by
  have hn : ¬ req.dir = .WRITE := by rw [hd]; decide
  rw [rb_transfer_eq dev_data req h, (transfer_ret_eq_zero_iff req).mpr hw, if_neg hn, if_neg hn]

theorem bytes_length (segs : List BioVec) :
    (bytes segs).length = (segs.map BioVec.bv_len).sum := by
  simp only [bytes, List.length_flatMap, Mem.load_length]

/-! ## Queues of requests -/

-- One completion of a queue: the request is ended with what `rb_transfer` returned for it.
def Completes (d : Mem UInt8) (c : Completion) (d' : Mem UInt8) : Prop :=
  rb_transfer d c.req = some ⟨c.error, d', c.segs⟩

theorem Completes.error_eq_zero_iff {d d' : Mem UInt8} {c : Completion} (h : Completes d c d')
    (hin : c.req.Inside) : c.error = 0 ↔ c.req.Whole := by
  unfold Completes at h
  rw [rb_transfer_eq d c.req hin] at h
  have hret := congrArg Transfer.ret (Option.some.inj h)
  simp only at hret
  rw [← hret, transfer_ret_eq_zero_iff]

-- One completion of a queue in which every request is answered with success.
def Succeeds (d : Mem UInt8) (c : Completion) (d' : Mem UInt8) : Prop :=
  c.req.Inside ∧ c.error = 0 ∧ rb_transfer d c.req = some ⟨c.error, d', c.segs⟩

theorem Succeeds.whole {d d' : Mem UInt8} {c : Completion} (h : Succeeds d c d') : c.req.Whole := by
  obtain ⟨hin, he, ht⟩ := h
  exact (Completes.error_eq_zero_iff ht hin).mp he

theorem Succeeds.write {d d' : Mem UInt8} {c : Completion} (h : Succeeds d c d')
    (hd : c.req.dir = .WRITE) : d' = d.store c.req.offset (bytes c.req.segs) := by
  have ht := h.2.2
  rw [rb_transfer_write h.1 h.whole hd] at ht
  exact (congrArg Transfer.dev_data (Option.some.inj ht)).symm

theorem Succeeds.read {d d' : Mem UInt8} {c : Completion} (h : Succeeds d c d')
    (hd : c.req.dir = .READ) :
    d' = d ∧ bytes c.segs = d.load c.req.offset (RB_SECTOR_SIZE * c.req.sector_cnt) := by
  have ht := h.2.2
  rw [rb_transfer_read h.1 h.whole hd] at ht
  have hsegs : filled d c.req.offset c.req.segs = c.segs :=
    congrArg Transfer.segs (Option.some.inj ht)
  refine ⟨(congrArg Transfer.dev_data (Option.some.inj ht)).symm, ?_⟩
  rw [← hsegs, filled_bytes _ _ h.whole.1, h.whole.2]

theorem rb_request_isSome (dev_data : Mem UInt8) (reqs : List Request)
    (h : ∀ req ∈ reqs, req.Inside) : ∃ d cs, rb_request dev_data reqs = some (d, cs) := by
  induction reqs generalizing dev_data with
  | nil => exact ⟨dev_data, [], rfl⟩
  | cons req reqs ih =>
    rw [List.forall_mem_cons] at h
    obtain ⟨t, ht⟩ : ∃ t, rb_transfer dev_data req = some t := ⟨_, rb_transfer_eq dev_data req h.1⟩
    obtain ⟨d, cs, hr⟩ := ih t.dev_data h.2
    refine ⟨d, ⟨req, t.ret, t.segs⟩ :: cs, ?_⟩
    simp only [rb_request, ht, Option.bind_eq_bind, Option.bind_some, hr]

-- A queue is a run of completions of its requests.
theorem rb_request_completes {dev_data d : Mem UInt8} {reqs : List Request} {cs : List Completion}
    (h : rb_request dev_data reqs = some (d, cs)) :
    Run Completes dev_data cs d ∧ cs.map Completion.req = reqs := by
  induction reqs generalizing dev_data cs with
  | nil =>
    simp only [rb_request, Option.some.injEq, Prod.mk.injEq] at h
    obtain ⟨rfl, rfl⟩ := h
    exact ⟨.nil, rfl⟩
  | cons req reqs ih =>
    simp only [rb_request, Option.bind_eq_bind, Option.bind_eq_some_iff, Option.some.injEq] at h
    obtain ⟨t, ht, ⟨d', cs'⟩, hr, hd⟩ := h
    obtain ⟨rfl, rfl⟩ := Prod.mk.inj hd
    obtain ⟨hrun, hmap⟩ := ih hr
    exact ⟨.cons ht hrun, congrArg (req :: ·) hmap⟩

theorem inside_of_map {reqs : List Request} {cs : List Completion}
    (hmap : cs.map Completion.req = reqs) (hin : ∀ req ∈ reqs, req.Inside) :
    ∀ c ∈ cs, c.req.Inside := by
  intro c hc
  apply hin
  rw [← hmap]
  exact List.mem_map_of_mem hc

/-- In a queue inside of the device exactly the whole requests are answered with success. -/
theorem run_error_eq_zero_iff {dev_data d : Mem UInt8} {cs : List Completion}
    (h : Run Completes dev_data cs d) (hin : ∀ c ∈ cs, c.req.Inside) :
    ∀ c ∈ cs, (c.error = 0 ↔ c.req.Whole) := by
  induction h with
  | nil => exact nofun
  | @snoc cs d c d' _ hc ih =>
    rw [List.forall_mem_append, List.forall_mem_singleton] at hin ⊢
    exact ⟨ih hin.1, hc.error_eq_zero_iff hin.2⟩

-- A queue whose requests all succeed is a run of successful completions.
theorem rb_request_run {dev_data d : Mem UInt8} {reqs : List Request} {cs : List Completion}
    (hin : ∀ req ∈ reqs, req.Inside) (h : rb_request dev_data reqs = some (d, cs))
    (hok : ∀ c ∈ cs, c.error = 0) : Run Succeeds dev_data cs d := by
  obtain ⟨hrun, hmap⟩ := rb_request_completes h
  have hinside := inside_of_map hmap hin
  clear h hmap
  induction hrun with
  | nil => exact .nil
  | @snoc cs d c d' _ hc ih =>
    rw [List.forall_mem_append, List.forall_mem_singleton] at hinside hok
    exact .snoc (ih hok.1 hinside.1) ⟨hinside.2, hok.2, hc⟩

/-- The stores of a history of completions, oldest first. -/
def stores (cs : List Completion) : List (Nat × List UInt8) :=
  cs.filterMap fun c ↦ if c.req.dir = .WRITE then some (c.req.offset, bytes c.req.segs) else none

/-- The byte last written at `a` by the requests of a history, or the initial one. -/
def lastWritten (dev_data : Mem UInt8) (cs : List Completion) (a : Nat) : UInt8 :=
  dev_data.lastStored a (stores cs).reverse

theorem run_storeAll {dev_data d : Mem UInt8} {cs : List Completion}
    (h : Run Succeeds dev_data cs d) : d = dev_data.storeAll (stores cs) := by
  induction h with
  | nil => rfl
  | @snoc cs d c d' _ hc ih =>
    rw [stores, List.filterMap_append, Mem.storeAll_append, ← stores, ← ih]
    by_cases hd : c.req.dir = .WRITE
    · simp [hc.write hd, hd, Mem.storeAll]
    · have hr : c.req.dir = .READ := by cases hx : c.req.dir <;> simp_all
      simp [(hc.read hr).1, hd, Mem.storeAll]

/-- Every byte of the disk is the one last written there. -/
theorem run_disk_lastWritten {dev_data d : Mem UInt8} {cs : List Completion}
    (h : Run Succeeds dev_data cs d) (a : Nat) : d a = lastWritten dev_data cs a := by
  rw [run_storeAll h, Mem.storeAll_apply]
  rfl

/-- Every byte read is the one last written there. -/
theorem run_read_lastWritten {dev_data d : Mem UInt8} {pre post : List Completion} {c : Completion}
    (h : Run Succeeds dev_data (pre ++ c :: post) d) (hd : c.req.dir = .READ) {j : Nat}
    (hj : j < (bytes c.segs).length) :
    (bytes c.segs)[j] = lastWritten dev_data pre (c.req.offset + j) := by
  rw [List.append_cons] at h
  obtain ⟨d', h'⟩ := h.of_append
  obtain ⟨d₁, hrun, hc⟩ := h'.snoc_inv
  have hb := (hc.read hd).2
  rw [List.getElem_of_eq hb, Mem.load_getElem, run_disk_lastWritten hrun]

/-- Two completions of requests that differ at most in how their bytes are cut into segments. -/
def SameBytes (c c' : Completion) : Prop :=
  c.req.dir = c'.req.dir ∧ c.req.start_sector = c'.req.start_sector ∧
    c.req.sector_cnt = c'.req.sector_cnt ∧
    (c.req.dir = .WRITE → bytes c.req.segs = bytes c'.req.segs)

theorem Succeeds.sameBytes {d d₁ d₂ : Mem UInt8} {c c' : Completion} (h : Succeeds d c d₁)
    (h' : Succeeds d c' d₂) (hs : SameBytes c c') :
    d₁ = d₂ ∧ (c.req.dir = .READ → bytes c.segs = bytes c'.segs) := by
  obtain ⟨hdir, hstart, hcnt, hb⟩ := hs
  have hoff : c.req.offset = c'.req.offset := by rw [Request.offset, hstart, Request.offset]
  cases hd : c.req.dir with
  | READ =>
    have hr := h.read hd
    have hr' := h'.read (hdir ▸ hd)
    exact ⟨hr.1.trans hr'.1.symm, fun _ ↦ by rw [hr.2, hr'.2, hoff, hcnt]⟩
  | WRITE =>
    exact ⟨by rw [h.write hd, h'.write (hdir ▸ hd), hoff, hb hd], fun he ↦ by cases he⟩

/-- How the bytes are cut into segments is visible neither on the disk nor in what is read. -/
theorem run_sameBytes {dev_data d d' : Mem UInt8} {cs cs' : List Completion}
    (h : Run Succeeds dev_data cs d) (h' : Run Succeeds dev_data cs' d')
    (hs : List.Forall₂ SameBytes cs cs') :
    d = d' ∧ List.Forall₂ (fun c c' ↦ c.req.dir = .READ → bytes c.segs = bytes c'.segs) cs cs' :=
  h.related (fun _ _ _ _ _ hc hc' hs ↦ hc.sameBytes hc' hs) h' hs

/-- The lab46 RAM disk is a flat array.  A request inside the device succeeds exactly when it is
whole; a successful write replaces the bytes of its sectors by its segments, a successful read
copies them out.  A queue of requests inside the device is completed with what `rb_transfer` returned
for each, one after the other.  Hence in every queue of successful requests the disk holds and a read
returns what was last written, and the cutting into segments does not matter. -/
theorem ram_disk_flat (dev_data : Mem UInt8) :
    (∀ req : Request, req.Inside → ∃ t, rb_transfer dev_data req = some t ∧
      (t.ret = 0 ↔ req.Whole) ∧
      (t.ret = 0 → req.dir = .WRITE → t.segs = req.segs ∧
        (bytes req.segs).length = RB_SECTOR_SIZE * req.sector_cnt ∧
        t.dev_data = dev_data.store req.offset (bytes req.segs)) ∧
      (t.ret = 0 → req.dir = .READ → t.dev_data = dev_data ∧
        t.segs.map BioVec.bv_len = req.segs.map BioVec.bv_len ∧
        bytes t.segs = dev_data.load req.offset (RB_SECTOR_SIZE * req.sector_cnt))) ∧
    (∀ reqs : List Request, (∀ req ∈ reqs, req.Inside) →
      ∃ d cs, rb_request dev_data reqs = some (d, cs) ∧ cs.map Completion.req = reqs ∧
        Run Completes dev_data cs d ∧ (∀ c ∈ cs, (c.error = 0 ↔ c.req.Whole)) ∧
        ((∀ c ∈ cs, c.error = 0) → (∀ a, d a = lastWritten dev_data cs a) ∧
          ∀ pre c post, cs = pre ++ c :: post → c.req.dir = .READ →
            ∀ (j : Nat) (hj : j < (bytes c.segs).length),
              (bytes c.segs)[j] = lastWritten dev_data pre (c.req.offset + j))) ∧
    (∀ (reqs reqs' : List Request) (d d' : Mem UInt8) (cs cs' : List Completion),
      (∀ req ∈ reqs, req.Inside) → (∀ req ∈ reqs', req.Inside) →
      rb_request dev_data reqs = some (d, cs) → rb_request dev_data reqs' = some (d', cs') →
      (∀ c ∈ cs, c.error = 0) → (∀ c ∈ cs', c.error = 0) → List.Forall₂ SameBytes cs cs' →
      d = d' ∧
        List.Forall₂ (fun c c' ↦ c.req.dir = .READ → bytes c.segs = bytes c'.segs) cs cs') := by
  refine ⟨fun req hin ↦ ?_, fun reqs hin ↦ ?_, fun reqs reqs' d d' cs cs' hin hin' h h' hok hok' ↦
    run_sameBytes (rb_request_run hin h hok) (rb_request_run hin' h' hok')⟩
  · refine ⟨_, rb_transfer_eq dev_data req hin, transfer_ret_eq_zero_iff req, fun h0 hd ↦ ?_,
      fun h0 hd ↦ ?_⟩
    · have hw := (transfer_ret_eq_zero_iff req).mp h0
      simp only [if_pos hd]
      exact ⟨trivial, by rw [bytes_length, hw.2], by rw [wholeBytes_eq_bytes hw.1]⟩
    · have hw := (transfer_ret_eq_zero_iff req).mp h0
      have hn : ¬ req.dir = .WRITE := by rw [hd]; decide
      simp only [if_neg hn]
      exact ⟨trivial, filled_lengths .., by rw [filled_bytes _ _ hw.1, hw.2]⟩
  · obtain ⟨d, cs, hr⟩ := rb_request_isSome dev_data reqs hin
    obtain ⟨hrun, hm⟩ := rb_request_completes hr
    refine ⟨d, cs, hr, hm, hrun, run_error_eq_zero_iff hrun (inside_of_map hm hin), fun hok ↦ ?_⟩
    have hsucc := rb_request_run hin hr hok
    refine ⟨run_disk_lastWritten hsucc, fun pre c post hcs hd j hj ↦ ?_⟩
    exact run_read_lastWritten (hcs ▸ hsucc) hd hj

-- Two sectors are written in two segments and read back in one.
theorem ram_disk_flat_two_sectors :
    let write : Request := ⟨.WRITE, 3, 2, [⟨512, fun i ↦ UInt8.ofNat i⟩, ⟨512, fun _ ↦ 7⟩]⟩
    let read : Request := ⟨.READ, 3, 2, [⟨1024, fun _ ↦ 1⟩]⟩
    ∃ d w r, rb_request (fun _ ↦ 0) [write, read] = some (d, [w, r]) ∧ w.error = 0 ∧ r.error = 0 ∧
      d = Mem.store (fun _ ↦ 0) write.offset (bytes write.segs) ∧
      bytes r.segs = bytes write.segs := by
  intro write read
  have hin : ∀ req ∈ [write, read], req.Inside := by
    simp [write, read, Request.Inside, sectors, RB_SECTOR_SIZE, RB_DEVICE_SIZE]
  have hw : write.Whole := by simp [write, Request.Whole, RB_SECTOR_SIZE]
  have hr : read.Whole := by simp [read, Request.Whole, RB_SECTOR_SIZE]
  obtain ⟨d, cs, heq, hmap, hrun, herr, _⟩ := (ram_disk_flat fun _ ↦ 0).2.1 [write, read] hin
  obtain ⟨w, r, rfl⟩ : ∃ w r, cs = [w, r] := by
    have hlen : cs.length = 2 := by rw [← List.length_map, hmap]; rfl
    exact List.length_eq_two.mp hlen
  simp only [List.map_cons, List.map_nil, List.cons.injEq, and_true] at hmap
  obtain ⟨hwreq, hrreq⟩ := hmap
  have hw0 : w.error = 0 := (herr w List.mem_cons_self).mpr (hwreq ▸ hw)
  have hr0 : r.error = 0 := (herr r (List.mem_cons_of_mem _ List.mem_cons_self)).mpr (hrreq ▸ hr)
  obtain ⟨d₁, hwritten, hrest⟩ := hrun.cons_inv
  obtain ⟨d₂, hfilled, hend⟩ := hrest.cons_inv
  cases hend.nil_inv
  rw [List.forall_mem_cons, List.forall_mem_singleton, ← hwreq, ← hrreq] at hin
  have hsw : Succeeds (fun _ ↦ 0) w d₁ := ⟨hin.1, hw0, hwritten⟩
  have hsr : Succeeds d₁ r d := ⟨hin.2, hr0, hfilled⟩
  have hstored := hsw.write (by rw [hwreq])
  have hread := hsr.read (by rw [hrreq])
  rw [hwreq] at hstored
  rw [hrreq] at hread
  refine ⟨d, w, r, heq, hw0, hr0, hread.1.trans hstored, ?_⟩
  rw [hread.2, hstored]
  exact Mem.load_store_same_of_eq _ _ _ _ (by rw [bytes_length, hw.2])

end OK210Drivers.RamDisk
