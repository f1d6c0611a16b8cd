import OK210Drivers.Touch.Driver

/-!
# Who owns the ADC

The semaphore and `adc_lock_id` say the same thing as long as the pen stays up while a client has the
controller: then `stylus_updown`, which cannot take the lock, gives the client's lock back instead.
-/

open Library

namespace OK210Drivers.Touch

/-- The semaphore count, the owner's id and the acquires of the clients, with nobody, the touch screen
or one client owning the controller. -/
inductive Owned : Nat → Nat → (Nat → Nat) → Prop
  | free : Owned 1 LOCK_FREE fun _ ↦ 0
  | ts : Owned 0 LOCK_TS fun _ ↦ 0
  | adc (c : Nat) : Owned 0 LOCK_ADC (Function.update (fun _ ↦ 0) c 1)

/-- The semaphore is free exactly when the id says so, and while a client has the controller the id
says that, too. -/
structure OneOwner (s : System) : Prop where
  binary : s.driver.ADC_LOCK = 0 ∨ s.driver.ADC_LOCK = 1
  free_iff : s.driver.ADC_LOCK = 1 ↔ s.driver.adc_lock_id = LOCK_FREE
  held : ∀ c, 0 < s.holds c → s.driver.adc_lock_id = LOCK_ADC

/-- No pen interrupt comes while a client has the controller. -/
def PenWaits (_ : List Event) (s : System) (e : Event) : Prop :=
  ∀ data0 data1 data0' data1', e = .updown data0 data1 data0' data1' →
    s.driver.adc_lock_id ≠ LOCK_ADC

section Lock

variable {cfg : Config} {s : State} {data0 data1 data0' data1' : BitVec 32} {id : Nat}

theorem s3c_ts_adc_lock_free (h : 0 < s.ADC_LOCK) : s3c_ts_adc_lock id s =
    (0, { s with ADC_LOCK := s.ADC_LOCK - 1, adc_lock_id := id }) := by
  rw [s3c_ts_adc_lock, down_trylock, if_pos h]
  rfl

theorem s3c_ts_adc_lock_taken (h : s.ADC_LOCK = 0) : s3c_ts_adc_lock id s = (1, s) := by
  rw [s3c_ts_adc_lock, down_trylock, if_neg (by omega)]
  rfl

theorem report_position_lock : (report_position cfg s).ADC_LOCK = s.ADC_LOCK ∧
    (report_position cfg s).adc_lock_id = s.adc_lock_id := by
  unfold report_position
  split
  · dsimp only
    split
    · exact ⟨rfl, rfl⟩
    · exact ⟨rfl, rfl⟩
  · split
    · exact ⟨rfl, rfl⟩
    · exact ⟨rfl, rfl⟩

theorem report_up_lock : (report_up cfg s).ADC_LOCK = s.ADC_LOCK ∧
    (report_up cfg s).adc_lock_id = s.adc_lock_id := by
  unfold report_up
  split
  · exact ⟨rfl, rfl⟩
  · exact ⟨rfl, rfl⟩

-- The timer gives the lock back only when the touch screen has it.
theorem touch_timer_fire_lock :
    ((touch_timer_fire cfg data0 data1 s).ADC_LOCK = s.ADC_LOCK ∧
        (touch_timer_fire cfg data0 data1 s).adc_lock_id = s.adc_lock_id) ∨
      (s.adc_lock_id = LOCK_TS ∧
        (touch_timer_fire cfg data0 data1 s).ADC_LOCK = s.ADC_LOCK + 1 ∧
        (touch_timer_fire cfg data0 data1 s).adc_lock_id = LOCK_FREE) := by
  unfold touch_timer_fire
  split
  · exact Or.inl ⟨rfl, rfl⟩
  · split
    · left
      dsimp only
      split
      · exact report_position_lock
      · exact ⟨rfl, rfl⟩
    · have hup := @report_up_lock cfg { s with count := 0 }
      dsimp only at hup ⊢
      split
      next h =>
        right
        refine ⟨hup.2 ▸ h.2, ?_, rfl⟩
        show (report_up cfg { s with count := 0 }).ADC_LOCK + 1 = _
        rw [hup.1]
      next => exact Or.inl hup

theorem stylus_action_lock : (stylus_action cfg data0 data1 s).ADC_LOCK = s.ADC_LOCK ∧
    (stylus_action cfg data0 data1 s).adc_lock_id = s.adc_lock_id := by
  unfold stylus_action
  split
  · exact ⟨rfl, rfl⟩
  · dsimp only
    split <;> split <;> exact ⟨rfl, rfl⟩

end Lock

section Owned

variable {cfg : Config} {s : State} {data0 data1 data0' data1' : BitVec 32} {n id : Nat}
  {holds : Nat → Nat}

theorem Owned.of_ts (h : Owned n id holds) (hid : id = LOCK_TS) : n = 0 ∧ holds = fun _ ↦ 0 := by
  cases h with
  | free => exact absurd hid (by decide)
  | ts => exact ⟨rfl, rfl⟩
  | adc c => exact absurd hid (by decide)

theorem Owned.of_adc (h : Owned n id holds) (hid : id = LOCK_ADC) :
    n = 0 ∧ ∃ c, holds = Function.update (fun _ ↦ 0) c 1 := by
  cases h with
  | free => exact absurd hid (by decide)
  | ts => exact absurd hid (by decide)
  | adc c => exact ⟨rfl, c, rfl⟩

-- A client that has an acquire to release has the controller, and nobody else does.
theorem Owned.of_holds (h : Owned n id holds) {c : Nat} (hc : 0 < holds c) :
    n = 0 ∧ id = LOCK_ADC ∧ holds = Function.update (fun _ ↦ 0) c 1 := by
  cases h with
  | free => exact absurd hc (Nat.lt_irrefl 0)
  | ts => exact absurd hc (Nat.lt_irrefl 0)
  | adc d =>
    have hcd : c = d := by
      by_contra hne
      rw [Function.update_of_ne hne] at hc
      exact Nat.lt_irrefl 0 hc
    exact ⟨rfl, rfl, by rw [hcd]⟩

theorem Owned.of_pos (h : Owned n id holds) (hn : 0 < n) : n = 1 ∧ holds = fun _ ↦ 0 := by
  cases h with
  | free => exact ⟨rfl, rfl⟩
  | ts => exact absurd hn (Nat.lt_irrefl 0)
  | adc c => exact absurd hn (Nat.lt_irrefl 0)

theorem Owned.binary (h : Owned n id holds) : n = 0 ∨ n = 1 := by
  cases h <;> omega

theorem Owned.free_iff (h : Owned n id holds) : n = 1 ↔ id = LOCK_FREE := by
  cases h <;> decide

theorem Owned.oneOwner {s : System} (h : Owned s.driver.ADC_LOCK s.driver.adc_lock_id s.holds) :
    OneOwner s where
  binary := h.binary
  free_iff := h.free_iff
  held _ hc := (h.of_holds hc).2.1

theorem touch_timer_fire_owned (h : Owned s.ADC_LOCK s.adc_lock_id holds) :
    Owned (touch_timer_fire cfg data0 data1 s).ADC_LOCK
      (touch_timer_fire cfg data0 data1 s).adc_lock_id holds := by
  rcases @touch_timer_fire_lock cfg s data0 data1 with ⟨hl, hid⟩ | ⟨hts, hl, hid⟩
  · rw [hl, hid]
    exact h
  · rcases h.of_ts hts with ⟨h0, rfl⟩
    rw [hl, hid, h0]
    exact .free

theorem stylus_action_owned (h : Owned s.ADC_LOCK s.adc_lock_id holds) :
    Owned (stylus_action cfg data0 data1 s).ADC_LOCK
      (stylus_action cfg data0 data1 s).adc_lock_id holds := by
  rw [stylus_action_lock.1, stylus_action_lock.2]
  exact h

-- With the controller free or its own, the touch screen has it after the first lines.
theorem stylus_updown_owned (h : Owned s.ADC_LOCK s.adc_lock_id holds)
    (hne : s.adc_lock_id ≠ LOCK_ADC) :
    Owned (stylus_updown cfg data0 data1 data0' data1' s).ADC_LOCK
      (stylus_updown cfg data0 data1 data0' data1' s).adc_lock_id holds := by
  have hpen : ∀ s : State, Owned s.ADC_LOCK s.adc_lock_id holds →
      Owned (if updown data0 data1 then touch_timer_fire cfg data0' data1' s else s).ADC_LOCK
        (if updown data0 data1 then touch_timer_fire cfg data0' data1' s else s).adc_lock_id
        holds := by
    intro s h
    split
    · exact touch_timer_fire_owned h
    · exact h
  unfold stylus_updown
  dsimp only
  split
  next hts =>
    have hfree : 0 < s.ADC_LOCK ∧ holds = fun _ ↦ 0 := by
      generalize hn : s.ADC_LOCK = n, hid : s.adc_lock_id = id at h
      cases h with
      | free => exact ⟨Nat.one_pos, rfl⟩
      | ts => exact absurd hid hts.2
      | adc c => exact absurd hid hne
    rw [s3c_ts_adc_lock_free hfree.1]
    apply hpen
    rw [(h.of_pos hfree.1).1, hfree.2]
    exact .ts
  next => exact hpen s h

-- While a client has the controller, a pen interrupt gives it back.
theorem stylus_updown_adc (hcfg : cfg.s5p_adc = true) (hid : s.adc_lock_id = LOCK_ADC)
    (hl : s.ADC_LOCK = 0) :
    stylus_updown cfg data0 data1 data0' data1' s = s3c_ts_adc_unlock s := by
  have hts : s.adc_lock_id ≠ LOCK_TS := by
    rw [hid]
    decide
  have hid0 : s.adc_lock_id ≠ 0 := by
    rw [hid]
    decide
  unfold stylus_updown
  dsimp only
  rw [if_pos ⟨hcfg, hts⟩, s3c_ts_adc_lock_taken hl]
  show (if (1 : Int) ≠ 0 then _ else _) = _
  rw [if_pos (by decide)]
  show (if s.adc_lock_id ≠ 0 then _ else _) = _
  rw [if_pos hid0]

end Owned

section Run

variable {cfg : Config} {es : List Event} {e : Event} {s t : System}

theorem owned_step (h : Owned s.driver.ADC_LOCK s.driver.adc_lock_id s.holds)
    (hs : Step cfg s e t) (hg : PenWaits es s e) :
    Owned t.driver.ADC_LOCK t.driver.adc_lock_id t.holds := by
  cases hs with
  | updown _ _ _ _ => exact stylus_updown_owned h (hg _ _ _ _ rfl)
  | action _ _ => exact stylus_action_owned h
  | timer _ _ _ => exact touch_timer_fire_owned h
  | @acquire ret d c _ hacq =>
    rw [X6410_adc_acquire_io] at hacq
    by_cases hl : 0 < s.driver.ADC_LOCK
    · rw [s3c_ts_adc_lock_free hl, Prod.mk.injEq] at hacq
      rcases hacq with ⟨rfl, rfl⟩
      rcases h.of_pos hl with ⟨h1, h0⟩
      show Owned (s.driver.ADC_LOCK - 1) LOCK_ADC
        (if (0 : Int) = 0 then Function.update s.holds c (s.holds c + 1) else s.holds)
      rw [if_pos rfl, h1, h0]
      exact .adc c
    · rw [s3c_ts_adc_lock_taken (Nat.eq_zero_of_not_pos hl), Prod.mk.injEq] at hacq
      rcases hacq with ⟨rfl, rfl⟩
      show Owned s.driver.ADC_LOCK s.driver.adc_lock_id
        (if (1 : Int) = 0 then Function.update s.holds c (s.holds c + 1) else s.holds)
      rw [if_neg (by decide)]
      exact h
  | @release c _ hc =>
    rcases h.of_holds hc with ⟨h0, _, hh⟩
    have hholds : Function.update s.holds c (s.holds c - 1) = fun _ ↦ 0 := by
      rw [hh, Function.update_self, Function.update_idem]
      exact Function.update_eq_self c _
    show Owned (s.driver.ADC_LOCK + 1) 0 (Function.update s.holds c (s.holds c - 1))
    rw [hholds, h0]
    exact .free

-- A pen interrupt while a client has the controller leaves that client without it.
theorem penWaits_of_oneOwner (hcfg : cfg.s5p_adc = true)
    (h : Owned s.driver.ADC_LOCK s.driver.adc_lock_id s.holds) (hs : Step cfg s e t)
    (ht : OneOwner t) : PenWaits es s e := by
  rintro data0 data1 data0' data1' rfl hid
  rcases h.of_adc hid with ⟨hl, c, hc⟩
  cases hs with
  | updown _ _ _ _ =>
    have hheld := ht.held c
    rw [show s.holds = Function.update (fun _ ↦ 0) c 1 from hc, Function.update_self,
      stylus_updown_adc hcfg hid hl] at hheld
    have hid' : LOCK_FREE = LOCK_ADC := hheld Nat.one_pos
    exact absurd hid' (by decide)

/-- The controller has one owner at a time throughout exactly in the runs in which no pen interrupt
comes while a client has it. -/
theorem oneOwner_iff (android : Bool) (shift resol_bit : Nat) :
    GuardedRun (Step ⟨true, android, shift, resol_bit⟩) PenWaits System.init es s ↔
      KeepingRun (Step ⟨true, android, shift, resol_bit⟩) (fun _ ↦ OneOwner) System.init es s := by
  apply guardedRun_iff_keepingRun
    (fun _ s ↦ Owned s.driver.ADC_LOCK s.driver.adc_lock_id s.holds) .free
  · exact fun es s hi ↦ hi.oneOwner
  · exact fun es s e t hi hs hg ↦ owned_step hi hs hg
  · exact fun es s e t hi hs ht ↦ penWaits_of_oneOwner rfl hi hs ht

/-- A client acquires the controller and the pen comes down: nobody owns the controller, and the
client's own release makes the count 2. -/
theorem pen_frees_client :
    ∃ s t, Run (Step ⟨true, false, 2, 10⟩) System.init [.acquire 0, .updown 0 0 0 0] s ∧
      Step ⟨true, false, 2, 10⟩ s (.release 0) t ∧
      s.holds 0 = 1 ∧ s.driver.adc_lock_id = LOCK_FREE ∧ t.driver.ADC_LOCK = 2 := by
  let cfg : Config := ⟨true, false, 2, 10⟩
  let d : State := { State.init with ADC_LOCK := 0, adc_lock_id := LOCK_ADC }
  have hacq : X6410_adc_acquire_io State.init = (0, d) := rfl
  have hpen : stylus_updown cfg 0 0 0 0 d = s3c_ts_adc_unlock d := stylus_updown_adc rfl rfl rfl
  have h₁ : Run (Step cfg) System.init [.acquire 0] ⟨d, Function.update (fun _ ↦ 0) 0 1⟩ :=
    .snoc .nil (.acquire (s := System.init) 0 rfl hacq)
  have h₂ := h₁.snoc (.updown 0 0 0 0)
  rw [hpen] at h₂
  exact ⟨_, _, h₂, .release rfl Nat.one_pos, rfl, rfl, rfl⟩

end Run

end OK210Drivers.Touch
