import OK210Drivers.Server.Conversation

/-!
# Requests and responses

When `recv` returns all that has been sent, a client's history is one exchange after the other: a request it
sends, the same request as the server prints it, and the server's response.
-/

open Library

namespace OK210Drivers.Server.Lab53

variable {C : Type} [DecidableEq C] {p : Setup C} {s t : State C} {e : Event C} {es : List (Event C)}

/-- What is said on the connections of a client, with the place in its `sdvec`. -/
inductive Message
  | sent (j : Nat) (text : List Char)
  | printed (j : Nat) (text : List Char)
  | received (j : Nat) (text : List Char)
  deriving DecidableEq

def Event.message (p : Setup C) (c : C) : Event C → Option Message
  | .server _ (some x) => if x.1.1 = c then some (.printed x.1.2 x.2) else none
  | .send d k j => if d = c then some (.sent j (p.request c j k)) else none
  | .recv d _ j text => if d = c then some (.received j text) else none
  | _ => none

def messages (p : Setup C) (c : C) (es : List (Event C)) : List Message := es.filterMap (Event.message p c)

/-- `recv` returns all that is there. -/
def ReadsAll (s : State C) : Event C → Prop
  | .server _ (some x) => x.2 = s.up x.1
  | .recv c _ j text => text = s.down (c, j)
  | _ => True

/-- Request `k` of a client, on connection `j`, and its response. -/
def exchange (p : Setup C) (c : C) (k j : Nat) : List Message :=
  [.sent j (p.request c j k), .printed j (p.request c j k), .received j p.response]

/-- The first requests with their responses, on the connections `js`. -/
def exchanges (p : Setup C) (c : C) (js : List Nat) : List Message := (js.mapIdx (exchange p c)).flatten

/-- How much of request `k` is done: it has been sent, or the server has printed it too. -/
inductive UnderWay (p : Setup C) (c : C) (k j : Nat) (s : State C) : List Message → Prop
  | sent (hup : s.up (c, j) = p.request c j k) (hdown : s.down (c, j) = []) :
      UnderWay p c k j s [.sent j (p.request c j k)]
  | printed (hup : s.up (c, j) = []) (hdown : s.down (c, j) = p.response) :
      UnderWay p c k j s [.sent j (p.request c j k), .printed j (p.request c j k)]

/-- What a client's place in the program says of its history: exchanges on the connections `js`, and
`rest`. -/
def Talk (p : Setup C) (c : C) (s : State C) (js : List Nat) (rest : List Message) : Prop :=
  match s.pc c with
  | .opening _ => js = [] ∧ rest = []
  | .writing k => js.length = k ∧ rest = []
  | .receiving k j => js.length = k ∧ j < p.ncons c ∧ UnderWay p c k j s rest
  | .closing _ => js.length = p.nwrites c ∧ rest = []
  | .exited => js.length = p.nwrites c ∧ rest = []

/-- What has been said, and nothing is on its way but for the request under way. -/
structure Said (p : Setup C) (es : List (Event C)) (s : State C) (c : C) : Prop where
  history : ∃ js rest, (∀ j ∈ js, j < p.ncons c) ∧ messages p c es = exchanges p c js ++ rest ∧ Talk p c s js rest
  silent : ∀ i, (∀ k, s.pc c ≠ .receiving k i) → s.up (c, i) = [] ∧ s.down (c, i) = []

theorem messages_snoc (c : C) :
    messages p c (es ++ [e]) = messages p c es ++ (e.message p c).toList := by
  unfold messages
  rw [List.filterMap_append]
  cases h : e.message p c <;> simp [h]

omit [DecidableEq C] in
theorem exchanges_snoc (p : Setup C) (c : C) (js : List Nat) (j : Nat) :
    exchanges p c (js ++ [j]) = exchanges p c js ++ exchange p c js.length j := by
  simp [exchanges, List.mapIdx_concat]

/-- A step that says nothing on the connections of `c` and leaves it where it is. -/
theorem Said.mono {c : C} (h : Said p es s c) (hm : e.message p c = none) (hpc : t.pc c = s.pc c)
    (hup : ∀ i, t.up (c, i) = s.up (c, i)) (hdown : ∀ i, t.down (c, i) = s.down (c, i)) :
    Said p (es ++ [e]) t c := by
  obtain ⟨js, rest, hjs, hhist, htalk⟩ := h.history
  refine ⟨⟨js, rest, hjs, ?_, ?_⟩, fun i hi ↦ ?_⟩
  · rw [messages_snoc, hm, hhist]
    exact List.append_nil _
  · unfold Talk at htalk ⊢
    rw [hpc]
    cases hat : s.pc c with
    | receiving k j =>
      rw [hat] at htalk
      refine ⟨htalk.1, htalk.2.1, ?_⟩
      cases htalk.2.2 with
      | sent hu hd => exact .sent ((hup j).trans hu) ((hdown j).trans hd)
      | printed hu hd => exact .printed ((hup j).trans hu) ((hdown j).trans hd)
    | opening => rwa [hat] at htalk
    | writing => rwa [hat] at htalk
    | closing => rwa [hat] at htalk
    | exited => rwa [hat] at htalk
  · rw [hup, hdown]
    exact h.silent i fun k ↦ hpc ▸ hi k

theorem drop_of_take {n : Nat} {l : List Char} (h : l.take n = l) : l.drop n = [] := by
  have hlen : (l.take n).length = l.length := congrArg List.length h
  rw [List.length_take] at hlen
  exact List.drop_eq_nil_iff.mpr (by omega)

/-- The server answers what client `c` has sent. -/
theorem Said.receive {c : C} {j : Nat} {ev : Select.Event} {text : List Char} (h : Said p es s c)
    (hne : text ≠ []) (htext : text = s.up (c, j)) (hpc : t.pc = s.pc)
    (hup : t.up = Function.update s.up (c, j) [])
    (hdown : t.down = Function.update s.down (c, j) (s.down (c, j) ++ p.response)) :
    Said p (es ++ [.server ev (some ((c, j), text))]) t c := by
  obtain ⟨js, rest, hjs, hhist, htalk⟩ := h.history
  have hat : ∃ k, s.pc c = .receiving k j := by
    by_contra hno
    exact hne (htext.trans (h.silent j fun k hk ↦ hno ⟨k, hk⟩).1)
  obtain ⟨k, hat⟩ := hat
  unfold Talk at htalk
  rw [hat] at htalk
  obtain ⟨hlen, hj, hway⟩ := htalk
  cases hway with
  | printed hu _ => exact absurd (htext.trans hu) hne
  | sent hu hd =>
    refine ⟨⟨js, [.sent j (p.request c j k), .printed j (p.request c j k)], hjs, ?_, ?_⟩, fun i hi ↦ ?_⟩
    · rw [messages_snoc, hhist, htext, hu]
      simp [Event.message]
    · unfold Talk
      rw [hpc, hat]
      refine ⟨hlen, hj, .printed ?_ ?_⟩
      · rw [hup, Function.update_self]
      · rw [hdown, Function.update_self, hd, List.nil_append]
    · have hij : (c, i) ≠ (c, j) := by
        rintro hij
        cases hij
        exact hi k (by rw [hpc]; exact hat)
      rw [hup, hdown, Function.update_of_ne hij, Function.update_of_ne hij]
      exact h.silent i fun k' ↦ hpc ▸ hi k'

theorem said_server (h : ∀ c, Said p es s c) (hs : ServerStep p s e t) (hr : ReadsAll s e) (c : C) :
    Said p (es ++ [e]) t c := by
  cases hs with
  | quiet => exact (h c).mono rfl rfl (fun _ ↦ rfl) fun _ ↦ rfl
  | select => exact (h c).mono rfl rfl (fun _ ↦ rfl) fun _ ↦ rfl
  | accept => exact (h c).mono rfl rfl (fun _ ↦ rfl) fun _ ↦ rfl
  | hangup => exact (h c).mono rfl rfl (fun _ ↦ rfl) fun _ ↦ rfl
  | @receive ci fd x n v hx hpos hn hlen hstep =>
    obtain ⟨d, j⟩ := x
    have hall : (s.up (d, j)).take n = s.up (d, j) := hr
    by_cases hd : d = c
    · subst hd
      have hdrop : (s.up (d, j)).drop n = [] := drop_of_take hall
      refine (h d).receive ?_ hall rfl (by rw [← hdrop]) rfl
      rw [hall]
      exact List.ne_nil_of_length_pos (lt_of_lt_of_le hpos hlen)
    · have hne : ∀ i, (c, i) ≠ (d, j) := fun i he ↦ hd (congrArg Prod.fst he).symm
      exact (h c).mono (if_neg hd) rfl (fun i ↦ Function.update_of_ne (hne i) ..)
        fun i ↦ Function.update_of_ne (hne i) ..

/-- Client `c` sends its next request. -/
theorem Said.send {c : C} {k j : Nat} (h : Said p es s c) (hpc : s.pc c = .writing k) (hj : j < p.ncons c) :
    Said p (es ++ [.send c k j])
      { s.goto c (.receiving k j) with
        up := Function.update s.up (c, j) (s.up (c, j) ++ p.request c j k) } c := by
  obtain ⟨js, rest, hjs, hhist, htalk⟩ := h.history
  have hsilent : ∀ i, s.up (c, i) = [] ∧ s.down (c, i) = [] :=
    fun i ↦ h.silent i fun k' hk' ↦ by cases hpc.symm.trans hk'
  unfold Talk at htalk
  rw [hpc] at htalk
  obtain ⟨hlen, rfl⟩ := htalk
  have hnow : Function.update s.pc c (.receiving k j) c = .receiving k j := Function.update_self ..
  refine ⟨⟨js, [.sent j (p.request c j k)], hjs, ?_, ?_⟩, fun i hi ↦ ?_⟩
  · rw [messages_snoc, hhist]
    simp [Event.message]
  · unfold Talk
    simp only [State.goto, hnow]
    refine ⟨hlen, hj, .sent ?_ (hsilent j).2⟩
    simp only [Function.update_self, (hsilent j).1, List.nil_append]
  · have hij : (c, i) ≠ (c, j) := by
      rintro hij
      cases hij
      exact hi k hnow
    refine ⟨?_, (hsilent i).2⟩
    show Function.update s.up (c, j) _ (c, i) = []
    rw [Function.update_of_ne hij]
    exact (hsilent i).1

/-- Client `c` has its response. -/
theorem Said.recv {c : C} {k j n : Nat} (h : Said p es s c) (hpc : s.pc c = .receiving k j) (hpos : 0 < n)
    (hlen : n ≤ (s.down (c, j)).length) (hall : (s.down (c, j)).take n = s.down (c, j)) :
    Said p (es ++ [.recv c k j ((s.down (c, j)).take n)])
      { s.goto c (.writing (k + 1)) with
        down := Function.update s.down (c, j) ((s.down (c, j)).drop n) } c := by
  obtain ⟨js, rest, hjs, hhist, htalk⟩ := h.history
  have hdrop : (s.down (c, j)).drop n = [] := drop_of_take hall
  unfold Talk at htalk
  rw [hpc] at htalk
  obtain ⟨hk, hj, hway⟩ := htalk
  have hnow : Function.update s.pc c (.writing (k + 1)) c = .writing (k + 1) := Function.update_self ..
  cases hway with
  | sent _ hd =>
    rw [hd] at hlen
    exact absurd hpos (Nat.not_lt.mpr hlen)
  | printed hu hd =>
    refine ⟨⟨js ++ [j], [], ?_, ?_, ?_⟩, fun i _ ↦ ?_⟩
    · intro i hi
      rcases List.mem_append.mp hi with hi | hi
      · exact hjs i hi
      · rw [List.mem_singleton.mp hi]
        exact hj
    · rw [messages_snoc, hhist, hall, hd, exchanges_snoc, hk]
      simp [Event.message, exchange]
    · unfold Talk
      simp only [State.goto, hnow]
      simp [hk]
    · by_cases hij : i = j
      · subst hij
        refine ⟨hu, ?_⟩
        show Function.update s.down (c, i) _ (c, i) = []
        rw [Function.update_self]
        exact hdrop
      · have hsilent := h.silent i fun k' hk' ↦ by
          cases hpc.symm.trans hk'
          exact hij rfl
        refine ⟨hsilent.1, ?_⟩
        show Function.update s.down (c, j) _ (c, i) = []
        rw [Function.update_of_ne fun he ↦ hij (congrArg Prod.snd he)]
        exact hsilent.2

/-- Another client's call. -/
theorem Said.other {c d : C} {pc : Pc} (h : Said p es s c) (hd : d ≠ c) (hm : e.message p c = none)
    (hpc : t.pc = Function.update s.pc d pc) (hup : ∀ i, t.up (c, i) = s.up (c, i))
    (hdown : ∀ i, t.down (c, i) = s.down (c, i)) : Said p (es ++ [e]) t c :=
  h.mono hm (by rw [hpc, Function.update_of_ne (Ne.symm hd)]) hup hdown

/-- A client's call outside of an exchange. -/
theorem Said.goto {c d : C} {pc : Pc} (h : Said p es s c) (hm : e.message p c = none)
    (hpc : t.pc = Function.update s.pc d pc) (hup : t.up = s.up) (hdown : t.down = s.down)
    (hbefore : ∀ k i, s.pc d ≠ .receiving k i)
    (htalk : ∀ js rest, Talk p d s js rest → Talk p d t js rest) : Said p (es ++ [e]) t c := by
  by_cases hd : d = c
  case neg => exact h.other hd hm hpc (fun _ ↦ by rw [hup]) fun _ ↦ by rw [hdown]
  subst hd
  obtain ⟨js, rest, hjs, hhist, hold⟩ := h.history
  refine ⟨⟨js, rest, hjs, ?_, htalk js rest hold⟩, fun i _ ↦ ?_⟩
  · rw [messages_snoc, hm, hhist]
    exact List.append_nil _
  · rw [hup, hdown]
    exact h.silent i fun k ↦ hbefore k i

theorem said_client (h : ∀ c, Said p es s c) (hs : ClientStep p s e t) (hr : ReadsAll s e) (c : C) :
    Said p (es ++ [e]) t c := by
  cases hs with
  | connect hpc =>
    refine (h c).goto rfl rfl rfl rfl (by rw [hpc]; nofun) fun js rest htalk ↦ ?_
    unfold Talk at htalk ⊢
    rw [hpc] at htalk
    simpa [State.goto] using htalk
  | opened hpc =>
    refine (h c).goto rfl rfl rfl rfl (by rw [hpc]; nofun) fun js rest htalk ↦ ?_
    unfold Talk at htalk ⊢
    rw [hpc] at htalk
    simpa [State.goto] using htalk
  | @send d k j hpc hk hj =>
    by_cases hd : d = c
    case pos =>
      subst hd
      exact (h d).send hpc hj
    exact (h c).other hd (if_neg hd) rfl
      (fun i ↦ Function.update_of_ne (fun he ↦ hd (congrArg Prod.fst he).symm) ..) fun _ ↦ rfl
  | @recv d k j n hpc hpos hn hlen =>
    by_cases hd : d = c
    case pos =>
      subst hd
      exact (h d).recv hpc hpos hlen hr
    exact (h c).other hd (if_neg hd) rfl (fun _ ↦ rfl)
      fun i ↦ Function.update_of_ne (fun he ↦ hd (congrArg Prod.fst he).symm) ..
  | written hpc =>
    refine (h c).goto rfl rfl rfl rfl (by rw [hpc]; nofun) fun js rest htalk ↦ ?_
    unfold Talk at htalk ⊢
    rw [hpc] at htalk
    simpa [State.goto] using htalk
  | close hpc =>
    refine (h c).goto rfl rfl rfl rfl (by rw [hpc]; nofun) fun js rest htalk ↦ ?_
    unfold Talk at htalk ⊢
    rw [hpc] at htalk
    simpa [State.goto] using htalk
  | exit hpc =>
    refine (h c).goto rfl rfl rfl rfl (by rw [hpc]; nofun) fun js rest htalk ↦ ?_
    unfold Talk at htalk ⊢
    rw [hpc] at htalk
    simpa [State.goto] using htalk

/-- In every interleaving, a client's history is one exchange after the other, the last one of which may be
under way. -/
theorem exchanges_follow {v : Select.State}
    (h : RunWhere (Step p) (fun _ s e _ ↦ ReadsAll s e) (start v) es s) (c : C) :
    ∃ js rest, (∀ j ∈ js, j < p.ncons c) ∧ messages p c es = exchanges p c js ++ rest ∧
      Talk p c s js rest := by
  have hsaid : ∀ c, Said p es s c := by
    refine h.invariant (fun es s ↦ ∀ c, Said p es s c) (fun c ↦ ?_) fun es s e t hi hs hr ↦ ?_
    · exact ⟨⟨[], [], fun _ hj ↦ absurd hj List.not_mem_nil, rfl, rfl, rfl⟩, fun _ _ ↦ ⟨rfl, rfl⟩⟩
    · rcases hs with hs | hs
      · exact said_server hi hs hr
      · exact said_client hi hs hr
  exact (hsaid c).history

-- The server after the connection has been accepted.
def serving_one (testset : Finset Int) (pc : Select.Pc) : Select.State where
  sd := 3
  ncons := 2
  fdset := {4, 3}
  testset := testset
  fdmax := 4
  nopen := 1
  isopen := Function.update (fun ci ↦ if ci < 2 then false else false) 0 true
  cd := Function.update (fun _ ↦ 0) 0 4
  fds := {4, 3, 0, 1, 2}
  pc := pc

-- A client sends its request, the server accepts the connection and answers, and the client has the response.
theorem exchanges_follow_first_request :
    ∃ v es s, Select.main_init 2 3 (fun _ ↦ false) (fun _ ↦ 0) {0, 1, 2} = some v ∧
      RunWhere (Step (some_clients 2 1 1)) (fun _ s e _ ↦ ReadsAll s e) (start v) es s ∧
      messages (some_clients 2 1 1) 0 es = exchanges (some_clients 2 1 1) 0 [0] ∧
      ∃ js rest, (∀ j ∈ js, j < 1) ∧
        messages (some_clients 2 1 1) 0 es = exchanges (some_clients 2 1 1) 0 js ++ rest ∧
          Talk (some_clients 2 1 1) 0 s js rest := by
  let p : Setup (Fin 2) := some_clients 2 1 1
  let v₀ : Select.State := (Select.main_init 2 3 (fun _ ↦ false) (fun _ ↦ 0) {0, 1, 2}).get rfl
  let s₀ : State (Fin 2) := start v₀
  let s₁ : State (Fin 2) := { s₀.goto 0 (.opening 1) with pending := [] ++ [(0, 0)] }
  let s₂ : State (Fin 2) := s₁.goto 0 (.writing 0)
  let s₃ : State (Fin 2) := { s₂.goto 0 (.receiving 0 0) with
    up := Function.update s₂.up (0, 0) ([] ++ p.request 0 0 0) }
  let s₄ : State (Fin 2) := { s₃ with server := { Select.enter v₀ with testset := {3}, pc := .listening } }
  let s₅ : State (Fin 2) := { s₄ with
    server := serving_one {3} (.serving 0)
    pending := []
    owner := Function.update s₄.owner 4 (some (0, 0)) }
  let s₆ : State (Fin 2) := { s₅ with server := serving_one {3} .top }
  let s₇ : State (Fin 2) := { s₅ with server := serving_one {4, 3} .calling }
  let s₈ : State (Fin 2) := { s₅ with server := serving_one {4} .listening }
  let s₉ : State (Fin 2) := { s₅ with server := serving_one {4} (.serving 0) }
  let n : Nat := (p.request 0 0 0).length
  let s₁₀ : State (Fin 2) := { s₉ with
    server := Select.serve s₉.server 0 n
    up := Function.update s₉.up (0, 0) ((s₉.up (0, 0)).drop n)
    down := Function.update s₉.down (0, 0) ([] ++ p.response) }
  let m : Nat := p.response.length
  let s₁₁ : State (Fin 2) := { s₁₀.goto 0 (.writing 1) with
    down := Function.update s₁₀.down (0, 0) ((s₁₀.down (0, 0)).drop m) }
  have hconnect : ClientStep p s₀ (.connect 0 0) s₁ := .connect rfl Nat.one_pos (Nat.succ_pos 999)
  have hopened : ClientStep p s₁ (.opened 0) s₂ := .opened rfl
  have hsend : ClientStep p s₂ (.send 0 0 0) s₃ := .send rfl Nat.one_pos Nat.one_pos
  have hready₃ : ∀ d, d ∈ ({3} : Finset Int) ↔
      d ∈ (Select.enter v₀).testset ∧ State.Readable { s₃ with server := Select.enter v₀ } d := by
    intro d
    refine ⟨fun hd ↦ ?_, fun hd ↦ hd.1⟩
    rw [Finset.mem_singleton.mp hd]
    exact ⟨by decide, Or.inl ⟨rfl, List.cons_ne_nil _ _⟩⟩
  have hselect₃ : ServerStep p { s₃ with server := Select.enter v₀ } (.server (.select {3}) none) s₄ :=
    .select (.select rfl (by decide)) hready₃ (by decide)
  have haccept : ServerStep p s₄ (.server (.accept 0 4) none) s₅ :=
    .accept rfl (.accept rfl (by decide) (by decide) ⟨by decide, by decide⟩ rfl)
  have hready₄ : ∀ d, d ∈ ({4} : Finset Int) ↔ d ∈ s₇.server.testset ∧ s₇.Readable d := by
    intro d
    constructor
    · intro hd
      rw [Finset.mem_singleton.mp hd]
      exact ⟨by decide, Or.inr ⟨(0, 0), rfl, Or.inl (by decide)⟩⟩
    · rintro ⟨hd, ⟨-, hpending⟩ | ⟨x, howner, -⟩⟩
      · exact absurd rfl hpending
      · by_contra hne
        have hother : s₇.owner d = none :=
          Function.update_of_ne (fun h4 : d = 4 ↦ hne (Finset.mem_singleton.mpr h4)) ..
        rw [hother] at howner
        cases howner
  have hselect₄ : ServerStep p s₇ (.server (.select {4}) none) s₈ :=
    .select (.select rfl (by decide)) hready₄ (by decide)
  have hreceive : ServerStep p s₉ (.server (.handle 0 4 n) (some ((0, 0), (s₉.up (0, 0)).take n))) s₁₀ :=
    .receive rfl (by decide) (by decide) (by decide) (.handle rfl (by decide) (by decide))
  have hrecv : ClientStep p s₁₀ (.recv 0 0 0 ((s₁₀.down (0, 0)).take m)) s₁₁ :=
    .recv rfl (by decide) (by decide) (by decide)
  have hsent : RunWhere (Step p) (fun _ s e _ ↦ ReadsAll s e) s₀ [.connect 0 0, .opened 0, .send 0 0 0] s₃ :=
    .snoc (.snoc (.snoc .nil (Or.inr hconnect) trivial) (Or.inr hopened) trivial) (Or.inr hsend) trivial
  have haccepted : RunWhere (Step p) (fun _ s e _ ↦ ReadsAll s e) s₀ _ s₆ :=
    .snoc (.snoc (.snoc (.snoc (.snoc (.snoc hsent
      (Or.inl (.quiet (Or.inl rfl) (.enter rfl))) trivial) (Or.inl hselect₃) trivial) (Or.inl haccept) trivial)
      (Or.inl (.quiet (Or.inr (Or.inr (Or.inl rfl)))
        (.pass (show (serving_one {3} (.serving 0)).pc = .serving 0 from rfl) (by decide) (by decide)))) trivial)
      (Or.inl (.quiet (Or.inr (Or.inr (Or.inl rfl)))
        (.pass (show (serving_one {3} (.serving 1)).pc = .serving 1 from rfl) (by decide) (by decide)))) trivial)
      (Or.inl (.quiet (Or.inr (Or.inr (Or.inr rfl)))
        (.wrap (show (serving_one {3} (.serving 2)).pc = .serving 2 from rfl) (by decide)))) trivial
  have hwhole : (s₉.up (0, 0)).take n = s₉.up (0, 0) := by decide
  have hanswer : (s₁₀.down (0, 0)).take m = s₁₀.down (0, 0) := by decide
  have hread : RunWhere (Step p) (fun _ s e _ ↦ ReadsAll s e) s₀ _ s₁₁ :=
    .snoc (.snoc (.snoc (.snoc (.snoc haccepted (Or.inl (.quiet (Or.inl rfl) (.enter rfl))) trivial)
      (Or.inl hselect₄) trivial)
      (Or.inl (.quiet (Or.inr (Or.inl rfl)) (.noAccept (show s₈.server.pc = .listening from rfl)
        (by decide)))) trivial)
      (Or.inl hreceive) hwhole) (Or.inr hrecv) hanswer
  exact ⟨v₀, _, s₁₁, rfl, hread, by decide, exchanges_follow hread 0⟩

end OK210Drivers.Server.Lab53
