/-
Scripts over an exchange.

Values are whatever the script says; wakers and callbacks have names.  A callback carries steps that
run when the callback does, inside the step that ran its job.  Each wait is served at most once, so
the steps of a callback run at most once, and a script never runs more steps than it is written
with: that is why the bounds given to `runBody` and `Play.repeated` in `runScript` are never used
up.
-/
import Dialogue.Ending
import Dialogue.Handoff.Exchange
import Dialogue.Script

namespace Dialogue.Handoff

/-- One step on an exchange, with queues and futures named by number. -/
inductive Step (α : Type)
  | new (h : Int)
  | clone (h target : Int)
  | drop (h : Int)
  | push (h : Int) (value : α)
  | stop (h : Int)
  | debug (h : Int)
  /-- Waits with a callback. -/
  | asyncPop (h callback : Int) (body : List (Step α))
  /-- Waits with a future. -/
  | pop (h id : Int)
  | poll (id : Int) (waker : String)
  | dropPop (id : Int)
  /-- Withdraws, from a queue, the ticket given last to a callback of this name. -/
  | withdraw (h callback : Int)
  | runOne
  | run
  | shutdown
  | panic (message : String)
  /-- A step that names nothing there is. -/
  | unknown

instance {α : Type} : Inhabited (Step α) := ⟨.unknown⟩

/-- A waiting callback: its name and the steps it performs. -/
structure Callback (α : Type) where
  name : Int
  body : List (Step α)

/-- What a step answers. -/
inductive Answer (α : Type)
  /-- The step names nothing there is. -/
  | absent
  /-- The step has no result. -/
  | done
  | text (text : String)
  | ticket (t : Nat)
  | refused (r : Refusal)
  | pending
  | value (a : α)
  | flag (b : Bool)
  | count (n : Nat)

/-- A callback ran and was given something. -/
inductive Event (α : Type)
  | called (name : Int) (given : Delivery α) (inner : List (Report (Answer α) (Event α)))

/-- An exchange, and the ticket given last to each callback's name. -/
structure World (α : Type) where
  exchange : Exchange α (Callback α) String := {}
  granted : Table Nat := .empty

variable {α : Type}

/-- A step of a script over an exchange. -/
abbrev Play (α β : Type) : Type := Dialogue.Play (World α) (Event α) β

open Dialogue.Play (change look operate emit aside inside repeated)

/-- The text of a ticket. -/
def ticketText (t : Nat) : String :=
  "Ticket(" ++ toString t ++ ")"

/-- Performs an operation that may have had to post a job; a refused job is a panic. -/
def posting (f : Exchange α (Callback α) String → Bool × Exchange α (Callback α) String) :
    Play α Unit := do
  let accepted ← operate fun w =>
    let (accepted, exchange) := f w.exchange
    (accepted, { w with exchange })
  unless accepted do Dialogue.Play.panic .spawnRefused

/-- Performs an operation on the exchange. -/
def onExchange (f : Exchange α (Callback α) String → Exchange α (Callback α) String) :
    Play α Unit :=
  change fun w => { w with exchange := f w.exchange }

/-- Performs an operation on the exchange that answers. -/
def asking {β : Type}
    (f : Exchange α (Callback α) String → β × Exchange α (Callback α) String) :
    Play α β :=
  operate fun w =>
    let (b, exchange) := f w.exchange
    (b, { w with exchange })

/-- Runs the job at the head, if there is one. -/
def runJob (inner : List (Step α) → Play α (List (Report (Answer α) (Event α)))) :
    Play α Bool := do
  let taken ← asking fun x =>
    match x.nextJob? with
    | none => (none, x)
    | some (job, x) => (some job, x)
  match taken with
  | none => return false
  | some none => return true
  | some (some (callback, given)) =>
    emit (.called callback.name given (← aside (inner callback.body)))
    return true

/-- What a poll answers. -/
def Answer.ofPolled : Polled α → Answer α
  | .pending => .pending
  | .delivered (.value a) => .value a
  | .delivered .cancelled => .refused .cancelled
  | .withdrawn => .refused .cancelled

/-- A step on a queue needs a handle to it. -/
def withHandle (h : Int) (f : Nat → Play α (Answer α)) : Play α (Answer α) := do
  match ← look (·.exchange.handles.get? h) with
  | none => return .absent
  | some q => f q

/-- Performs one step, given how to run the steps of a callback and a bound on the jobs that one
step may run. -/
def perform (jobs : Nat)
    (inner : List (Step α) → Play α (List (Report (Answer α) (Event α)))) :
    Step α → Play α (Answer α)
  | .new h => do
    posting (·.create h)
    return .done
  | .clone h target => withHandle h fun q => do
    posting (·.storeHandle target q)
    return .done
  | .drop h => withHandle h fun _ => do
    posting (·.dropHandle h)
    return .done
  | .push h value => withHandle h fun q => do
    posting (·.push q value)
    return .done
  | .stop h => withHandle h fun q => do
    posting (·.stop q)
    return .done
  | .debug h => withHandle h fun q => do
    return .text (← look (·.exchange.queue q)).text
  | .asyncPop h name body => withHandle h fun q => do
    let waiting ← asking fun x =>
      match x.asyncPop? q ⟨name, body⟩ with
      | none => (none, x)
      | some (t, accepted, x) => (some (t, accepted), x)
    match waiting with
    | none => return .refused .misuse
    | some (t, accepted) =>
      unless accepted do Dialogue.Play.panic .spawnRefused
      change fun w => { w with granted := w.granted.put name t }
      return .ticket t
  | .pop h id => withHandle h fun q => do
    let waiting ← asking fun x =>
      match x.pop? id q with
      | none => (false, x)
      | some x => (true, x)
    return if waiting then .done else .refused .misuse
  | .poll id waker => do
    match ← look (·.exchange.pops.get? id) with
    | none => return .absent
    | some ⟨_, .none⟩ => Dialogue.Play.panic .popFinished
    | some ⟨q, .some t⟩ => return .ofPolled (← asking (·.pollPop id q t waker))
  | .dropPop id => do
    match ← look (·.exchange.pops.get? id) with
    | none => return .absent
    | some _ =>
      onExchange (·.dropPop id)
      return .done
  | .withdraw h name => withHandle h fun q => do
    match ← look (·.granted.get? name) with
    | none => return .absent
    | some t => return .flag (← asking (·.withdraw q t))
  | .runOne => return .flag (← runJob inner)
  | .run => return .count (← repeated (runJob inner) jobs)
  | .shutdown => do
    onExchange (·.shutdown)
    return .done
  | .panic message => Dialogue.Play.panic (.raised message)
  | .unknown => return .absent

/-- Runs the steps of a callback, with a bound on how deep callbacks run inside one another. -/
def runBody (jobs : Nat) :
    Nat → List (Step α) → Play α (List (Report (Answer α) (Event α)))
  | 0, _ => throw .outOfFuel
  | fuel + 1, steps => inside (perform jobs (runBody jobs fuel)) steps

/-- What is shown of an exchange after a step. -/
structure View where
  /-- For each handle the length of its queue, and whether somebody waits there. -/
  queues : List (Int × Nat × Bool)
  jobs : Nat
  /-- The wakers woken during the step, in order. -/
  wakes : List String

/-- What a step changed, and how the queues stand after it. -/
def World.view (before after : World α) : View where
  queues := after.exchange.handles.entries.map fun (h, q) =>
    (h, (after.exchange.queue q).values.length, (after.exchange.queue q).isWaiting)
  jobs := after.exchange.jobs.ready.length
  wakes := after.exchange.woken.drop before.exchange.woken.length

mutual

/-- How many steps a step consists of, itself and those of its callback. -/
def Step.weight : Step α → Nat
  | .asyncPop _ _ body => weights body + 1
  | _ => 1

/-- How many steps a list of steps consists of. -/
def weights : List (Step α) → Nat
  | [] => 0
  | s :: steps => s.weight + weights steps

end

/-- Performs a script on an exchange with one queue, under handle 0. -/
def runScript (steps : List (Step α)) : List (Line (Answer α) (Event α) View) :=
  let bound := 4 * weights steps + 16
  Play.script (perform bound (runBody bound bound)) World.view
    { exchange := ((({} : Exchange α (Callback α) String)).create 0).2 } steps

end Dialogue.Handoff
