import OK210Drivers.Library.Mem
import OK210Drivers.Library.Runs
import OK210Drivers.RamDisk.Device

/-!
# The vhdd block driver

Two virtual disks share one busy flag and one timer.  `vhdd_request` copies the data of the first
request of a queue and sets the timer; `vhdd_interrupt` should end that request, but nobody remembers
it: what is ended is the next request of the queue.
-/

open Library

namespace OK210Drivers.Vhdd

open RamDisk (Dir)

def VHDD_MAX_DEVICE : Nat := 2
def VHDD_SECTOR_SIZE : Nat := 512
def VHDD_SECTORS : Nat := 16
def VHDD_HEADS : Nat := 2
def VHDD_CYLINDERS : Nat := 256
def VHDD_SECTOR_TOTAL : Nat := VHDD_SECTORS * VHDD_HEADS * VHDD_CYLINDERS

abbrev Dev := Fin VHDD_MAX_DEVICE

instance : NeZero VHDD_MAX_DEVICE := ⟨by decide⟩

/-- A request of the block layer: which one it is, `rq_data_dir`, `blk_rq_pos`, `blk_rq_cur_sectors`
and its buffer. -/
structure Request where
  id : Nat
  dir : Dir
  pos : Nat
  cur_sectors : Nat
  buffer : Mem UInt8

/-- What has been done with a request: its data was copied, or `blk_end_request_all(req, error)`. -/
inductive Act
  | copied (id : Nat) (bytes : List UInt8)
  | ended (id : Nat) (error : Int)

/-- The static variables, the requests waiting in the queues, all the requests that were submitted,
and what has been done so far.  `vhdd_timer` is the device in `data` while the timer is pending. -/
structure State where
  vhdd_busy : Bool
  vhdd_timer : Option Dev
  data : Dev → Mem UInt8
  queue : Dev → List Request
  submitted : List Request
  acts : List Act

/-- The driver as it has been loaded. -/
def vhdd_init (vdisk : Dev → Mem UInt8) : State := ⟨false, none, vdisk, fun _ ↦ [], [], []⟩

def blk_end_request_all (req : Request) (error : Int) (s : State) : State :=
  { s with acts := s.acts ++ [.ended req.id error] }

-- The `memcpy` of either direction, of the bytes of the request's current segment.
def copy_data (d : Dev) (req : Request) (s : State) : State :=
  let pData := req.pos * VHDD_SECTOR_SIZE
  let size := req.cur_sectors * VHDD_SECTOR_SIZE
  match req.dir with
  | .READ => { s with acts := s.acts ++ [.copied req.id ((s.data d).load pData size)] }
  | .WRITE =>
    let bytes := req.buffer.load 0 size
    { s with
      data := Function.update s.data d ((s.data d).store pData bytes)
      acts := s.acts ++ [.copied req.id bytes] }

-- The loop of `vhdd_request` over what is in the queue.
def request_loop (d : Dev) : List Request → State → State
  | [], s => { s with queue := Function.update s.queue d [] }
  | req :: q, s =>
    if req.pos + req.cur_sectors > VHDD_SECTOR_TOTAL then
      request_loop d q (blk_end_request_all req 0 s)
    else
      { copy_data d req s with
        queue := Function.update s.queue d q
        vhdd_timer := some d
        vhdd_busy := true }

/-- `vhdd_request(q)` for the queue of device `d`. -/
def vhdd_request (d : Dev) (s : State) : State :=
  if s.vhdd_busy then s else request_loop d (s.queue d) s

/-- `vhdd_interrupt(data)` for device `d`.  With an empty queue a null request is ended, and there is
no next state. -/
def vhdd_interrupt (d : Dev) (s : State) : Option State :=
  match s.queue d with
  | [] => none
  | req :: q =>
    let s := { s with queue := Function.update s.queue d q }
    let s := { blk_end_request_all req 1 s with vhdd_busy := false }
    some (vhdd_request d s)

-- A request that arrives goes to the end of the queue.
def enqueue (d : Dev) (req : Request) (s : State) : State :=
  { s with
    queue := Function.update s.queue d (s.queue d ++ [req])
    submitted := s.submitted ++ [req] }

inductive Event
  | submit (d : Dev) (req : Request)
  | expire

/-- The queue is run when a request arrives; requests are numbered as they come. -/
inductive Step : State → Event → State → Prop
  | submit {s : State} (d : Dev) (req : Request) : req.id = s.submitted.length →
      Step s (.submit d req) (vhdd_request d (enqueue d req s))
  | expire {s t : State} {d : Dev} : s.vhdd_timer = some d →
      vhdd_interrupt d { s with vhdd_timer := none } = some t → Step s .expire t

/-- The errors that a request has been ended with. -/
def ends (acts : List Act) (id : Nat) : List Int :=
  acts.filterMap fun a ↦ match a with
    | .ended id' error => if id' = id then some error else none
    | .copied _ _ => none

def Request.Inside (req : Request) : Prop := req.pos + req.cur_sectors ≤ VHDD_SECTOR_TOTAL

def Copied (acts : List Act) (id : Nat) : Prop := ∃ bytes, .copied id bytes ∈ acts

/-- A request that was completed once, not before its data was copied, and with success exactly if it
lies on the disk and its data was copied. -/
structure Completed (acts : List Act) (req : Request) : Prop where
  once : ∃ error, ends acts req.id = [error]
  truthful : ∀ error ∈ ends acts req.id, error = 0 ↔ req.Inside ∧ Copied acts req.id
  not_early : ∀ pre error post, acts = pre ++ .ended req.id error :: post → ¬Copied post req.id

def AllCompleted (s : State) : Prop := ∀ req ∈ s.submitted, Completed s.acts req

section Request

variable {acts : List Act} {id : Nat} {d : Dev} {s : State}

theorem ends_append (acts acts' : List Act) (id : Nat) :
    ends (acts ++ acts') id = ends acts id ++ ends acts' id :=
  List.filterMap_append ..

theorem ends_copied (id' : Nat) (bytes : List UInt8) : ends [.copied id' bytes] id = [] := rfl

theorem ends_ended (id' : Nat) (error : Int) :
    ends [.ended id' error] id = if id' = id then [error] else [] := by
  unfold ends
  by_cases h : id' = id
  · simp [h]
  · simp [h]

theorem copy_data_spec (d : Dev) (req : Request) (s : State) :
    (copy_data d req s).submitted = s.submitted ∧
      ∃ bytes, (copy_data d req s).acts = s.acts ++ [.copied req.id bytes] := by
  unfold copy_data
  cases req.dir with
  | READ => exact ⟨rfl, _, rfl⟩
  | WRITE => exact ⟨rfl, _, rfl⟩

-- Running a queue ends or copies requests of that queue only, and takes them out of it.
theorem request_loop_spec (d : Dev) (q : List Request) (s : State) :
    (request_loop d q s).submitted = s.submitted ∧
      (∀ req, req ∈ (request_loop d q s).queue d → req ∈ q) ∧
      (∀ d', d' ≠ d → (request_loop d q s).queue d' = s.queue d') ∧
      ∀ id, (∀ req ∈ q, req.id ≠ id) → ends (request_loop d q s).acts id = ends s.acts id := by
  induction q generalizing s with
  | nil =>
    refine ⟨rfl, fun req hreq ↦ ?_, fun d' hd' ↦ Function.update_of_ne hd' .., fun _ _ ↦ rfl⟩
    simp [request_loop] at hreq
  | cons req q ih =>
    unfold request_loop
    by_cases hout : req.pos + req.cur_sectors > VHDD_SECTOR_TOTAL
    · rw [if_pos hout]
      rcases ih (blk_end_request_all req 0 s) with ⟨hsub, hq, hother, hends⟩
      refine ⟨hsub, fun r hr ↦ List.mem_cons_of_mem _ (hq r hr), hother, fun id hid ↦ ?_⟩
      rw [List.forall_mem_cons] at hid
      rw [hends id hid.2]
      show ends (s.acts ++ [.ended req.id 0]) id = _
      rw [ends_append, ends_ended, if_neg hid.1, List.append_nil]
    · rw [if_neg hout]
      rcases copy_data_spec d req s with ⟨hsub, bytes, hacts⟩
      refine ⟨hsub, fun r hr ↦ ?_, fun d' hd' ↦ Function.update_of_ne hd' .., fun id hid ↦ ?_⟩
      · have hr : r ∈ Function.update s.queue d q d := hr
        rw [Function.update_self] at hr
        exact List.mem_cons_of_mem _ hr
      · show ends (copy_data d req s).acts id = _
        rw [hacts, ends_append, ends_copied, List.append_nil]

end Request

section Run

variable {es : List Event} {e : Event} {s t : State} {req r : Request} {d : Dev}

/-- A request that is in no queue any more, and was not completed or was completed with success
outside of the disk. -/
structure Lost (req : Request) (s : State) : Prop where
  submitted : req ∈ s.submitted
  gone : ∀ d, ∀ r ∈ s.queue d, r.id ≠ req.id
  wrong : req.Inside ∧ ends s.acts req.id = [] ∨ ¬req.Inside ∧ 0 ∈ ends s.acts req.id

theorem Lost.not_completed (h : Lost req s) : ¬Completed s.acts req := by
  intro hc
  rcases h.wrong with ⟨_, hnil⟩ | ⟨hout, h0⟩
  · rcases hc.once with ⟨error, herror⟩
    rw [hnil] at herror
    cases herror
  · exact hout ((hc.truthful 0 h0).mp rfl).1

theorem Lost.vhdd_request (h : Lost req s) (d : Dev) : Lost req (vhdd_request d s) := by
  unfold Vhdd.vhdd_request
  by_cases hbusy : s.vhdd_busy = true
  · rwa [if_pos hbusy]
  · rw [if_neg hbusy]
    rcases request_loop_spec d (s.queue d) s with ⟨hsub, hq, hother, hends⟩
    refine ⟨hsub ▸ h.submitted, fun d' r hr ↦ ?_, ?_⟩
    · by_cases hd : d' = d
      · exact h.gone d r (hq r (hd ▸ hr))
      · exact h.gone d' r (hother d' hd ▸ hr)
    · rw [hends req.id (h.gone d)]
      exact h.wrong

theorem Lost.enqueue (h : Lost req s) (d : Dev) (hne : r.id ≠ req.id) :
    Lost req (enqueue d r s) := by
  refine ⟨List.mem_append_left _ h.submitted, fun d' r' hr' ↦ ?_, h.wrong⟩
  have hr' : r' ∈ Function.update s.queue d (s.queue d ++ [r]) d' := hr'
  by_cases hd : d' = d
  · rw [hd, Function.update_self, List.mem_append, List.mem_singleton] at hr'
    rcases hr' with hr' | rfl
    · exact h.gone d r' hr'
    · exact hne
  · rw [Function.update_of_ne hd] at hr'
    exact h.gone d' r' hr'

theorem Lost.interrupt (h : Lost req s) (ht : vhdd_interrupt d { s with vhdd_timer := none } = some t) :
    Lost req t := by
  unfold vhdd_interrupt at ht
  split at ht
  · cases ht
  next r q hq =>
    have hq : s.queue d = r :: q := hq
    rw [Option.some.injEq] at ht
    subst ht
    apply Lost.vhdd_request
    refine ⟨h.submitted, fun d' r' hr' ↦ ?_, ?_⟩
    · have hr' : r' ∈ Function.update s.queue d q d' := hr'
      by_cases hd : d' = d
      · rw [hd, Function.update_self] at hr'
        exact h.gone d r' (hq ▸ List.mem_cons_of_mem _ hr')
      · rw [Function.update_of_ne hd] at hr'
        exact h.gone d' r' hr'
    · have hne : r.id ≠ req.id := h.gone d r (hq ▸ List.mem_cons_self ..)
      show _ ∧ ends (s.acts ++ [.ended r.id 1]) req.id = [] ∨
        _ ∧ 0 ∈ ends (s.acts ++ [.ended r.id 1]) req.id
      rw [ends_append, ends_ended, if_neg hne, List.append_nil]
      exact h.wrong

/-- Nothing has happened yet, or the first request is lost. -/
structure Inv (es : List Event) (s : State) : Prop where
  idle : s.submitted = [] → s.vhdd_busy = false ∧ s.vhdd_timer = none ∧ (∀ d, s.queue d = []) ∧
    s.acts = []
  lost : s.submitted ≠ [] → ∃ req, req.id < s.submitted.length ∧ Lost req s
  history : s.submitted = [] ↔ ∀ d req, .submit d req ∉ es

theorem inv_init (vdisk : Dev → Mem UInt8) : Inv [] (vhdd_init vdisk) where
  idle _ := ⟨rfl, rfl, fun _ ↦ rfl, rfl⟩
  lost h := absurd rfl h
  history := by simp [vhdd_init]

-- No request is left anywhere after the only one has been taken.
theorem queue_empty (hqueue : ∀ d, s.queue d = []) (d d' : Dev) :
    Function.update (enqueue d req s).queue d [] d' = [] := by
  by_cases hd : d' = d
  · rw [hd, Function.update_self]
  · rw [Function.update_of_ne hd]
    show Function.update s.queue d (s.queue d ++ [req]) d' = []
    rw [Function.update_of_ne hd, hqueue d']

-- The very first request is copied and never ended, or ended with success all the same.
theorem first_lost (h : Inv es s) (hnil : s.submitted = []) (d : Dev) (req : Request) :
    Lost req (vhdd_request d (enqueue d req s)) := by
  rcases h.idle hnil with ⟨hbusy, _, hqueue, hacts⟩
  have hone : (enqueue d req s).queue d = [req] := by
    show Function.update s.queue d (s.queue d ++ [req]) d = [req]
    rw [Function.update_self, hqueue d, List.nil_append]
  have hidle : ¬(enqueue d req s).vhdd_busy = true := by
    show ¬s.vhdd_busy = true
    rw [hbusy]
    exact Bool.false_ne_true
  have hmem : req ∈ (enqueue d req s).submitted :=
    List.mem_append_right _ (List.mem_singleton_self _)
  unfold Vhdd.vhdd_request
  rw [if_neg hidle, hone, request_loop]
  by_cases hout : req.pos + req.cur_sectors > VHDD_SECTOR_TOTAL
  · rw [if_pos hout, request_loop]
    refine ⟨hmem, fun d' r hr ↦ ?_, Or.inr ⟨Nat.not_le.mpr hout, ?_⟩⟩
    · have hr : r ∈ Function.update (enqueue d req s).queue d [] d' := hr
      rw [queue_empty hqueue] at hr
      cases hr
    · show 0 ∈ ends (s.acts ++ [.ended req.id 0]) req.id
      rw [ends_append, ends_ended, if_pos rfl]
      exact List.mem_append_right _ (List.mem_singleton_self _)
  · rw [if_neg hout]
    rcases copy_data_spec d req (enqueue d req s) with ⟨hsub, bytes, hcopied⟩
    refine ⟨hsub ▸ hmem, fun d' r hr ↦ ?_, Or.inl ⟨Nat.not_lt.mp hout, ?_⟩⟩
    · have hr : r ∈ Function.update (enqueue d req s).queue d [] d' := hr
      rw [queue_empty hqueue] at hr
      cases hr
    · rw [hcopied, ends_append, ends_copied, List.append_nil]
      show ends s.acts req.id = []
      rw [hacts]
      rfl

theorem vhdd_request_submitted (d : Dev) (s : State) :
    (vhdd_request d s).submitted = s.submitted := by
  unfold vhdd_request
  split
  · rfl
  · exact (request_loop_spec d (s.queue d) s).1

theorem vhdd_interrupt_submitted (ht : vhdd_interrupt d s = some t) : t.submitted = s.submitted := by
  unfold vhdd_interrupt at ht
  split at ht
  · cases ht
  · rw [Option.some.injEq] at ht
    subst ht
    exact vhdd_request_submitted d _

theorem inv_step (h : Inv es s) (hs : Step s e t) : Inv (es ++ [e]) t := by
  cases hs with
  | submit d req hid =>
    have hsub : (vhdd_request d (enqueue d req s)).submitted = s.submitted ++ [req] :=
      vhdd_request_submitted d (enqueue d req s)
    have hne : (vhdd_request d (enqueue d req s)).submitted ≠ [] := by
      rw [hsub]
      exact List.concat_ne_nil _ _
    refine ⟨fun hnil ↦ absurd hnil hne, fun _ ↦ ?_, iff_of_false hne fun hno ↦ ?_⟩
    · rw [hsub, List.length_append, List.length_singleton]
      by_cases hnil : s.submitted = []
      · exact ⟨req, by omega, first_lost h hnil d req⟩
      · rcases h.lost hnil with ⟨r, hr, hlost⟩
        exact ⟨r, by omega, (hlost.enqueue d (by omega)).vhdd_request d⟩
    · exact hno d req (List.mem_append_right _ (List.mem_singleton_self _))
  | @expire _ d htimer ht =>
    have hsub : t.submitted = s.submitted := by
      have hint := vhdd_interrupt_submitted ht
      exact hint
    have hne : s.submitted ≠ [] := by
      intro hnil
      rw [(h.idle hnil).2.1] at htimer
      cases htimer
    refine ⟨fun hnil ↦ absurd (hsub ▸ hnil) hne, fun _ ↦ ?_, ?_⟩
    · rcases h.lost hne with ⟨r, hr, hlost⟩
      exact ⟨r, hsub ▸ hr, hlost.interrupt ht⟩
    · rw [hsub, h.history]
      simp

/-- In a reachable state without anything in flight all the requests have been completed as they should
exactly if there has been no request. -/
theorem allCompleted_iff {vdisk : Dev → Mem UInt8} (h : Run Step (vhdd_init vdisk) es s)
    (_ : s.vhdd_busy = false) (_ : s.vhdd_timer = none) :
    AllCompleted s ↔ ∀ d req, .submit d req ∉ es := by
  have hinv := h.invariant Inv (inv_init vdisk) fun _ _ _ _ _ hi hs ↦ inv_step hi hs
  rw [← hinv.history]
  constructor
  · intro hall
    by_contra hne
    rcases hinv.lost hne with ⟨req, _, hlost⟩
    exact hlost.not_completed (hall req hlost.submitted)
  · intro hnil req hreq
    rw [hnil] at hreq
    cases hreq

end Run

-- A request behind the end of the disk is completed with success.
theorem request_outside_completed :
    let req : Request := ⟨0, .READ, 8192, 1, fun _ ↦ 0⟩
    ∃ s, Run Step (vhdd_init fun _ _ ↦ 0) [.submit 0 req] s ∧ s.vhdd_busy = false ∧
      s.vhdd_timer = none ∧ s.acts = [.ended 0 0] ∧ ¬AllCompleted s := by
  intro req
  have h : Run Step (vhdd_init fun _ _ ↦ 0) [.submit 0 req] _ := .snoc .nil (.submit 0 req rfl)
  refine ⟨_, h, rfl, rfl, rfl, fun hall ↦ ?_⟩
  exact (allCompleted_iff h rfl rfl).mp hall 0 req (List.mem_singleton_self _)

/-- Two reads of one sector arrive and the timer runs out: the first one has been copied but is never
completed, and the second one is completed with an error without having been looked at. -/
theorem request_in_flight_lost :
    ∃ es s, Run Step (vhdd_init fun _ _ ↦ 0) es s ∧ s.vhdd_busy = false ∧ s.vhdd_timer = none ∧
      (∀ d, s.queue d = []) ∧ ends s.acts 0 = [] ∧ ends s.acts 1 = [1] ∧ ¬AllCompleted s := by
  let req₀ : Request := ⟨0, .READ, 0, 1, fun _ ↦ 0⟩
  let req₁ : Request := ⟨1, .READ, 1, 1, fun _ ↦ 0⟩
  have h₁ : Run Step (vhdd_init fun _ _ ↦ 0) _ _ := .snoc .nil (.submit 0 req₀ rfl)
  have h₂ := h₁.snoc (.submit 0 req₁ rfl)
  have h₃ := h₂.snoc (.expire rfl rfl)
  refine ⟨_, _, h₃, rfl, rfl, by decide, rfl, rfl, fun hall ↦ ?_⟩
  rcases (hall req₀ (List.mem_cons_self ..)).once with ⟨error, herror⟩
  cases herror

end OK210Drivers.Vhdd
