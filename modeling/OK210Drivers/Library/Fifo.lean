import OK210Drivers.Library.Runs

/-!
# First-in first-out queues

The abstract queue: a list of messages, appended at one end and removed at the other.  Over a whole
run the messages removed are a prefix of the messages appended, and the queue holds the rest.
-/

namespace Library.Fifo

variable {M : Type*}

/-- What a step does to the queue. -/
inductive Event (M : Type*)
  | enqueue (m : M)
  | dequeue (m : M)
  | idle

inductive Step : List M → Event M → List M → Prop
  | enqueue (q : List M) (m : M) : Step q (.enqueue m) (q ++ [m])
  | dequeue (q : List M) (m : M) : Step (m :: q) (.dequeue m) q
  | idle (q : List M) : Step q .idle q

def Event.enqueued? : Event M → Option M
  | .enqueue m => some m
  | _ => none

def Event.dequeued? : Event M → Option M
  | .dequeue m => some m
  | _ => none

/-- The messages appended in a history, in order. -/
def enqueued (es : List (Event M)) : List M := es.filterMap Event.enqueued?

/-- The messages removed in a history, in order. -/
def dequeued (es : List (Event M)) : List M := es.filterMap Event.dequeued?

theorem run_enqueued {es : List (Event M)} {q : List M} (h : Run Step [] es q) :
    enqueued es = dequeued es ++ q := by
  induction h with
  | nil => rfl
  | snoc _ ht ih =>
    simp only [enqueued, dequeued, List.filterMap_append] at ih ⊢
    cases ht <;> simp [Event.enqueued?, Event.dequeued?, List.filterMap_cons, ih]

/-- The `k`-th message removed is the `k`-th message appended. -/
theorem run_dequeued_getElem? {es : List (Event M)} {q : List M} (h : Run Step [] es q)
    {k : Nat} (hk : k < (dequeued es).length) : (enqueued es)[k]? = (dequeued es)[k]? := by
  rw [run_enqueued h, List.getElem?_append_left hk]

/-- The queue is empty exactly when as many messages were removed as appended. -/
theorem run_eq_nil_iff {es : List (Event M)} {q : List M} (h : Run Step [] es q) :
    q = [] ↔ (dequeued es).length = (enqueued es).length := by
  rw [run_enqueued h, List.length_append, ← List.length_eq_zero_iff]
  omega

end Library.Fifo
