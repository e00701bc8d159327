/-
A queue with at most one waiting consumer.

Producers push values at any time.  The consumer waits for the next one, either with a callback or
with a future that is polled.  Nobody is served on the producer's stack: a push or a stop only
*notifies* the wait, and the value is taken off the queue later, when the posted job runs or the
future is polled again.  A wait that goes away in between therefore takes nothing with it.

A stop discards what is buffered and arms a cancellation, which is the next result whoever asks
first; after that the queue carries on.

Tickets are plain numbers.  Handlers `κ` and wakers `ω` are opaque here: a queue stores them and
gives them back.
-/

namespace Dialogue.Handoff

/-- The consumer that waits, if one does.  Its ticket is the number of the wait; waits of one queue
are numbered from 0. -/
inductive Waiting (κ ω : Type)
  | idle
  | callback (ticket : Nat) (handler : κ)
  /-- The waker is there from a pending poll until the first notification after it. -/
  | future (ticket : Nat) (waker : Option ω)

/-- The ticket of the wait in progress. -/
def Waiting.ticket? {κ ω : Type} : Waiting κ ω → Option Nat
  | idle => none
  | callback ticket _ => some ticket
  | future ticket _ => some ticket

/-- What a wait is given in the end: a value, or word that the queue was stopped. -/
inductive Delivery (α : Type)
  | value (a : α)
  | cancelled
deriving DecidableEq, Repr

/-- What is to be done, outside of the queue, about a wait that can be served now. -/
inductive Notice (ω : Type)
  /-- Post a job that serves the waiting callback. -/
  | post
  | wake (waker : ω)

/-- What a future learns from a poll. -/
inductive Polled (α : Type)
  | pending
  | delivered (d : Delivery α)
  /-- Its wait was withdrawn; the future resolves as cancelled and takes nothing. -/
  | withdrawn

/-- Buffered values, the wait, whether a cancellation is armed, and the number of the next wait. -/
structure Queue (α κ ω : Type) where
  values : List α := []
  waiting : Waiting κ ω := .idle
  cancelled : Bool := false
  nextTicket : Nat := 0

namespace Queue

variable {α κ ω : Type}

/-- A queue as it is made. -/
def fresh : Queue α κ ω := {}

/-- Something can be delivered. -/
def isReady (q : Queue α κ ω) : Bool :=
  q.cancelled || !q.values.isEmpty

/-- Somebody waits. -/
def isWaiting (q : Queue α κ ω) : Bool :=
  q.waiting.ticket?.isSome

/-- Takes the next result: an armed cancellation first, then the oldest value. -/
def nextResult? (q : Queue α κ ω) : Option (Delivery α × Queue α κ ω) :=
  if q.cancelled then
    some (.cancelled, { q with cancelled := false })
  else
    match q.values with
    | [] => none
    | a :: rest => some (.value a, { q with values := rest })

/-- Notifies the wait if something can be delivered to it.  A waker is notified once. -/
def notify (q : Queue α κ ω) : Option (Notice ω) × Queue α κ ω :=
  if q.isReady then
    match q.waiting with
    | .idle => (none, q)
    | .callback _ _ => (some .post, q)
    | .future ticket waker => (waker.map .wake, { q with waiting := .future ticket none })
  else
    (none, q)

/-- Appends a value. -/
def push (q : Queue α κ ω) (a : α) : Option (Notice ω) × Queue α κ ω :=
  { q with values := q.values ++ [a] }.notify

/-- Discards the buffered values and cancels the wait in progress or else the next one. -/
def stop (q : Queue α κ ω) : Option (Notice ω) × Queue α κ ω :=
  { q with values := [], cancelled := true }.notify

/-- Starts a wait, unless one is in progress. -/
def wait? (q : Queue α κ ω) (make : Nat → Waiting κ ω) :
    Option (Nat × Option (Notice ω) × Queue α κ ω) :=
  if q.isWaiting then none
  else
    let t := q.nextTicket
    some (t, { q with waiting := make t, nextTicket := t + 1 }.notify)

/-- Ends the wait with this ticket, if it is the one in progress. -/
def withdraw? (q : Queue α κ ω) (t : Nat) : Option (Queue α κ ω) :=
  if q.waiting.ticket? = some t then some { q with waiting := .idle } else none

/-- Ends the wait with this ticket; any other is left alone. -/
def withdraw (q : Queue α κ ω) (t : Nat) : Queue α κ ω :=
  (q.withdraw? t).getD q

/-- Takes the waiting callback together with what it is to be given, if there are both. -/
def takeCallback? (q : Queue α κ ω) : Option (κ × Delivery α × Queue α κ ω) :=
  match q.waiting with
  | .callback _ handler =>
    match q.nextResult? with
    | some (d, q') => some (handler, d, { q' with waiting := .idle })
    | none => none
  | _ => none

/-- Polls the future that waits with a ticket, on behalf of a waker. -/
def poll (q : Queue α κ ω) (t : Nat) (waker : ω) : Polled α × Queue α κ ω :=
  if q.waiting.ticket? = some t then
    match q.nextResult? with
    | some (d, q') => (.delivered d, { q' with waiting := .idle })
    | none =>
      match q.waiting with
      | .future _ _ => (.pending, { q with waiting := .future t (some waker) })
      | _ => (.pending, q)
  else
    (.withdrawn, q)

/-- The text of a queue. -/
def text (q : Queue α κ ω) : String :=
  "HandoffQueue \x7b len: " ++ toString q.values.length ++ ", waiting: " ++ toString q.isWaiting
    ++ ", cancelled: " ++ toString q.cancelled ++ " \x7d"

/-! ### A result is there exactly when the queue is ready -/

theorem nextResult?_isSome (q : Queue α κ ω) : q.nextResult?.isSome = q.isReady := by
  unfold nextResult? isReady
  cases q.cancelled
  · cases q.values <;> simp
  · simp

/-! ### What a notification leaves alone -/

@[simp] theorem values_notify (q : Queue α κ ω) : q.notify.2.values = q.values := by
  unfold notify; split
  · split <;> rfl
  · rfl

@[simp] theorem cancelled_notify (q : Queue α κ ω) : q.notify.2.cancelled = q.cancelled := by
  unfold notify; split
  · split <;> rfl
  · rfl

@[simp] theorem nextTicket_notify (q : Queue α κ ω) : q.notify.2.nextTicket = q.nextTicket := by
  unfold notify; split
  · split <;> rfl
  · rfl

@[simp] theorem ticket?_notify (q : Queue α κ ω) :
    q.notify.2.waiting.ticket? = q.waiting.ticket? := by
  unfold notify; split
  · split <;> simp_all [Waiting.ticket?]
  · rfl

/-! ### What a push and a stop do to the buffer -/

@[simp] theorem values_push (q : Queue α κ ω) (a : α) :
    (q.push a).2.values = q.values ++ [a] := by
  simp [push]

@[simp] theorem values_stop (q : Queue α κ ω) : q.stop.2.values = [] := by
  simp [stop]

@[simp] theorem cancelled_stop (q : Queue α κ ω) : q.stop.2.cancelled = true := by
  simp [stop]

end Queue

end Dialogue.Handoff
