/-
Many queues on one executor.

The exchange knows three kinds of references to a queue, and only the first keeps it from being
stopped: handles, futures that wait or waited on it, and jobs posted for its callback.  A queue
itself is never forgotten, because a future or a job may outlive every handle.

The identity of a queue is its place among all that were ever made.

Every operation takes effect on its queue first and passes the notice on afterwards.  So when the
executor refuses a job, what the operation did to the queue stays done.
-/
import Dialogue.Handoff.Queue
import Dialogue.Roster.Basic
import Dialogue.Table

namespace Dialogue.Handoff

/-- A future that waits on a queue; it has no ticket once it resolved. -/
structure Pop where
  queue : Nat
  ticket : Option Nat
deriving DecidableEq, Repr

/-- All queues, the handles and futures by number, the posted jobs, and every waking so far. -/
structure Exchange (α κ ω : Type) where
  queues : List (Queue α κ ω) := []
  handles : Table Nat := .empty
  pops : Table Pop := .empty
  jobs : Roster Nat := {}
  woken : List ω := []

namespace Exchange

variable {α κ ω : Type}

/-- Whether the executor took the job that an operation had to post, if it had to. -/
abbrev Accepted := Bool

/-- The queue with an identity. -/
def queue (x : Exchange α κ ω) (q : Nat) : Queue α κ ω :=
  x.queues[q]?.getD .fresh

/-- Replaces a queue. -/
def setQueue (x : Exchange α κ ω) (q : Nat) (new : Queue α κ ω) : Exchange α κ ω :=
  { x with queues := x.queues.set q new }

/-- Passes a notice on: a job to the executor, a waking to whoever listens. -/
def dispatch (x : Exchange α κ ω) (q : Nat) :
    Option (Notice ω) → Accepted × Exchange α κ ω
  | none => (true, x)
  | some (.wake waker) => (true, { x with woken := x.woken ++ [waker] })
  | some .post =>
    match x.jobs.spawn? q with
    | some jobs => (true, { x with jobs })
    | none => (false, x)

/-- Commits what an operation did to a queue and passes its notice on. -/
def commit (x : Exchange α κ ω) (q : Nat) (r : Option (Notice ω) × Queue α κ ω) :
    Accepted × Exchange α κ ω :=
  (x.setQueue q r.2).dispatch q r.1

/-- Pushes a value. -/
def push (x : Exchange α κ ω) (q : Nat) (a : α) : Accepted × Exchange α κ ω :=
  x.commit q ((x.queue q).push a)

/-- Stops a queue. -/
def stop (x : Exchange α κ ω) (q : Nat) : Accepted × Exchange α κ ω :=
  x.commit q (x.queue q).stop

/-- A handle has gone that referred to a queue; the last one to go stops it. -/
def released (x : Exchange α κ ω) (q : Nat) : Accepted × Exchange α κ ω :=
  if q ∈ x.handles.values then (true, x) else x.stop q

/-- Stores a handle; the handle it replaces goes. -/
def storeHandle (x : Exchange α κ ω) (h : Int) (q : Nat) : Accepted × Exchange α κ ω :=
  let y := { x with handles := x.handles.put h q }
  match x.handles.get? h with
  | none => (true, y)
  | some old => y.released old

/-- Makes a queue with one handle. -/
def create (x : Exchange α κ ω) (h : Int) : Accepted × Exchange α κ ω :=
  { x with queues := x.queues ++ [Queue.fresh] }.storeHandle h x.queues.length

/-- Drops a handle. -/
def dropHandle (x : Exchange α κ ω) (h : Int) : Accepted × Exchange α κ ω :=
  match x.handles.get? h with
  | none => (true, x)
  | some q => { x with handles := x.handles.erase h }.released q

/-- Waits on a queue with a callback, unless a wait is in progress there. -/
def asyncPop? (x : Exchange α κ ω) (q : Nat) (handler : κ) :
    Option (Nat × Accepted × Exchange α κ ω) :=
  ((x.queue q).wait? (.callback · handler)).map fun (t, r) => (t, x.commit q r)

/-- A future goes away: if it still waits, its wait ends, and nothing is taken. -/
def releasePop (x : Exchange α κ ω) (p : Pop) : Exchange α κ ω :=
  match p.ticket with
  | none => x
  | some t => x.setQueue p.queue ((x.queue p.queue).withdraw t)

/-- Stores a future; the one it replaces goes away. -/
def storePop (x : Exchange α κ ω) (id : Int) (p : Pop) : Exchange α κ ω :=
  let y := { x with pops := x.pops.put id p }
  match x.pops.get? id with
  | none => y
  | some old => y.releasePop old

/-- Waits on a queue with a future, unless a wait is in progress there.  Nobody polled the future
yet, so there is nobody to wake. -/
def pop? (x : Exchange α κ ω) (id : Int) (q : Nat) : Option (Exchange α κ ω) :=
  ((x.queue q).wait? (.future · none)).map fun (t, r) =>
    (x.commit q r).2.storePop id ⟨q, some t⟩

/-- Drops a future. -/
def dropPop (x : Exchange α κ ω) (id : Int) : Exchange α κ ω :=
  match x.pops.get? id with
  | none => x
  | some p => { x with pops := x.pops.erase id }.releasePop p

/-- Polls a future that has not resolved. -/
def pollPop (x : Exchange α κ ω) (id : Int) (q : Nat) (t : Nat) (waker : ω) :
    Polled α × Exchange α κ ω :=
  let (polled, queue) := (x.queue q).poll t waker
  let x := x.setQueue q queue
  match polled with
  | .pending => (polled, x)
  | _ => (polled, { x with pops := x.pops.put id ⟨q, none⟩ })

/-- Ends the wait with a ticket on a queue, and tells whether there was one. -/
def withdraw (x : Exchange α κ ω) (q : Nat) (t : Nat) : Bool × Exchange α κ ω :=
  match (x.queue q).withdraw? t with
  | none => (false, x)
  | some queue => (true, x.setQueue q queue)

/-- Takes the job at the head and with it, if its queue has both, the waiting callback and what the
callback is to be given. -/
def nextJob? (x : Exchange α κ ω) : Option (Option (κ × Delivery α) × Exchange α κ ω) :=
  x.jobs.next?.map fun (q, jobs) =>
    let x := { x with jobs }
    match (x.queue q).takeCallback? with
    | none => (none, x)
    | some (handler, d, queue) => (some (handler, d), x.setQueue q queue)

/-- The executor takes no more jobs. -/
def shutdown (x : Exchange α κ ω) : Exchange α κ ω :=
  { x with jobs := x.jobs.shutdown }

/-! ### What passing a notice on leaves alone -/

@[simp] theorem queues_dispatch (x : Exchange α κ ω) (q : Nat) (n : Option (Notice ω)) :
    (x.dispatch q n).2.queues = x.queues := by
  unfold dispatch
  split
  · rfl
  · rfl
  · split <;> rfl

/-- What an operation did to its queue stays done, also when the executor refuses its job. -/
theorem queues_commit (x : Exchange α κ ω) (q : Nat) (r : Option (Notice ω) × Queue α κ ω) :
    (x.commit q r).2.queues = x.queues.set q r.2 := by
  simp [commit, setQueue]

theorem queue_setQueue (x : Exchange α κ ω) (q p : Nat) (new : Queue α κ ω)
    (h : q < x.queues.length) :
    (x.setQueue q new).queue p = if p = q then new else x.queue p := by
  unfold queue setQueue
  by_cases hp : p = q
  · subst hp; simp [h]
  · have hq : q ≠ p := fun hc => hp hc.symm
    simp [hp, hq]

end Exchange

end Dialogue.Handoff
