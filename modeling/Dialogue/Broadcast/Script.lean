/-
Scripts over a registry of signals.

A callback carries steps that run when it does: when its signal fires, or at once if the signal has
fired already.  A callback runs at most once, so a script never runs more steps than it is written
with, which is why the bound given to `runBody` in `runScript` is never used up.

Nothing says in which order a firing goes through its listeners.  The order is therefore a
parameter, a rearrangement for each signal (a signal fires only once), and what a firing reports is
sorted by the names of the callbacks.
-/
import Dialogue.Broadcast.Registry
import Dialogue.Script

namespace Dialogue.Broadcast

/-- One step on a registry, with all objects named by number. -/
inductive Step
  | source (s : Int)
  | dropSource (s : Int)
  | token (s t : Int)
  | defaultToken (t : Int)
  | cloneToken (t target : Int)
  | dropToken (t : Int)
  /-- Registers a callback on a source. -/
  | register (s conn callback : Int) (body : List Step)
  /-- Registers a callback on a token. -/
  | registerToken (t conn callback : Int) (body : List Step)
  | fire (s : Int)
  | disconnect (conn : Int)
  | dropConn (conn : Int)
  /-- Makes a future that waits for a token's signal. -/
  | stopped (t f : Int)
  | poll (f : Int)
  | dropFuture (f : Int)
  | panic (message : String)
  /-- A step that names nothing there is. -/
  | unknown

instance : Inhabited Step := ⟨.unknown⟩

/-- A registered callback: its name and the steps it performs. -/
structure Callback where
  name : Int
  body : List Step

/-- What a step answers. -/
inductive Answer
  /-- The step names nothing there is. -/
  | absent
  /-- The step has no result. -/
  | done
  | flag (b : Bool)
  | polled (p : Polled)

/-- A callback ran. -/
inductive Event
  | called (name : Int) (inner : List (Report Answer Event))

/-- The name of the callback that ran. -/
def Event.name : Event → Int
  | called name _ => name

/-- A step of a script over a registry. -/
abbrev Play (α : Type) : Type := Dialogue.Play (Registry Callback) Event α

/-- An order for the listeners of each signal. -/
abbrev Order := Nat → List (Listener Callback) → List (Listener Callback)

/-- The order of registration. -/
def Order.registration : Order := fun _ listeners => listeners

open Dialogue.Play (change look operate emit aside arranged inside)

/-- Runs a callback. -/
def run (inner : List Step → Play (List (Report Answer Event))) (k : Callback) : Play Unit := do
  emit (.called k.name (← aside (inner k.body)))

/-- Runs a listener. -/
def notify (inner : List Step → Play (List (Report Answer Event))) :
    Listener Callback → Play Unit
  | .callback k => run inner k
  | .future channel => change (·.tell channel)

/-- Registers a callback, running it at once if its signal has fired, and answers whether the new
hook is connected. -/
def registerCallback (inner : List Step → Play (List (Report Answer Event))) (i : Option Nat)
    (conn : Int) (k : Callback) : Play Answer := do
  if ← operate (·.connect i conn k) then
    run inner k
    change (·.storeHook conn none)
  return .flag (← look fun r => r.isConnected ((r.hooks.get? conn).getD none))

/-- A step on a source needs one. -/
def withSource (s : Int) (f : Nat → Play Answer) : Play Answer := do
  match ← look (·.sources.get? s) with
  | none => return .absent
  | some i => f i

/-- A step on a token needs one. -/
def withToken (t : Int) (f : Option Nat → Play Answer) : Play Answer := do
  match ← look (·.tokens.get? t) with
  | none => return .absent
  | some i => f i

/-- A step on a hook needs one. -/
def withHook (conn : Int) (m : Play Answer) : Play Answer := do
  match ← look (·.hooks.get? conn) with
  | none => return .absent
  | some _ => m

/-- A step on a future needs one. -/
def withFuture (f : Int) (m : Future → Play Answer) : Play Answer := do
  match ← look (·.futures.get? f) with
  | none => return .absent
  | some future => m future

/-- Performs one step, given the order of firing and how to run the steps of a callback. -/
def perform (order : Order) (inner : List Step → Play (List (Report Answer Event))) :
    Step → Play Answer
  | .source s => do
    change (·.create s)
    return .done
  | .dropSource s => withSource s fun _ => do
    change fun r => { r with sources := r.sources.erase s }
    return .done
  | .token s t => withSource s fun i => do
    change fun r => { r with tokens := r.tokens.put t (some i) }
    return .done
  | .defaultToken t => do
    change fun r => { r with tokens := r.tokens.put t none }
    return .done
  | .cloneToken t target => withToken t fun i => do
    change fun r => { r with tokens := r.tokens.put target i }
    return .done
  | .dropToken t => withToken t fun _ => do
    change fun r => { r with tokens := r.tokens.erase t }
    return .done
  | .register s conn name body => withSource s fun i =>
    registerCallback inner (some i) conn ⟨name, body⟩
  | .registerToken t conn name body => withToken t fun i =>
    registerCallback inner i conn ⟨name, body⟩
  | .fire s => withSource s fun i => arranged (·.mergeSort (·.name ≤ ·.name)) do
    let listeners ← operate (·.fire i)
    (order i listeners).forM (notify inner)
    return .done
  | .disconnect conn => withHook conn do
    change (·.disconnect conn)
    return .done
  | .dropConn conn => withHook conn do
    change (·.dropHook conn)
    return .done
  | .stopped t f => withToken t fun i => do
    change (·.createFuture f i)
    return .done
  | .poll f => withFuture f fun future => return .polled (← operate (·.pollFuture f future))
  | .dropFuture f => withFuture f fun _ => do
    change (·.dropFuture f)
    return .done
  | .panic message => Dialogue.Play.panic (.raised message)
  | .unknown => return .absent

/-- Runs the steps of a callback, with a bound on how deep callbacks run inside one another. -/
def runBody (order : Order) : Nat → List Step → Play (List (Report Answer Event))
  | 0, _ => throw .outOfFuel
  | fuel + 1, steps => inside (perform order (runBody order fuel)) steps

/-- What is shown of a registry after a step. -/
structure View where
  /-- For each source whether it has fired. -/
  sources : List (Int × Bool)
  /-- For each token whether its signal has fired. -/
  tokens : List (Int × Bool)
  /-- For each hook whether it is connected. -/
  hooks : List (Int × Bool)

/-- How the registry stands. -/
def Registry.view (r : Registry Callback) : View where
  sources := r.sources.entries.map fun (s, i) => (s, r.isFired (some i))
  tokens := r.tokens.entries.map fun (t, i) => (t, r.isFired i)
  hooks := r.hooks.entries.map fun (conn, hook) => (conn, r.isConnected hook)

mutual

/-- How many steps a step consists of, itself and those of its callback. -/
def Step.weight : Step → Nat
  | .register _ _ _ body => weights body + 1
  | .registerToken _ _ _ body => weights body + 1
  | _ => 1

/-- How many steps a list of steps consists of. -/
def weights : List Step → Nat
  | [] => 0
  | s :: steps => s.weight + weights steps

end

/-- Performs a script on a registry with one source, under number 0. -/
def runScript (order : Order) (steps : List Step) : List (Line Answer Event View) :=
  Play.script (perform order (runBody order (weights steps + 1))) (fun _ after => after.view)
    (({} : Registry Callback).create 0) steps

end Dialogue.Broadcast
