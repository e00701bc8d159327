/-
Scripts over a rack of one-shots.

A callable may name a body: steps that run inside the call, on the same rack, before the call
answers.  What a name stands for can be changed while the callable waits.  The slot that was called
is empty when the body starts, and stays as the body leaves it.  A body may call other callables, so
the evaluation takes a bound on the depth of calls.  What happens inside a call depends on three
things only: which body runs, which names stand for which bodies, and which names the callables in
the slots have; what a step keeps outside the slots is called by that step alone.  If an inner call
finds all three as an outer call found them, calls go on inside one another for ever.  So the depth
of calls in a script that comes to an end is at most the number of ways in which these things can
stand, and that is what `runScript` allows.
-/
import Dialogue.Ending
import Dialogue.OneShot.Rack
import Dialogue.Script

namespace Dialogue.OneShot

/-- One step on a rack. -/
inductive Step (n : Nat := 8)
  /-- Makes a callable and puts it into a slot.  A body given here is from now on what the name
  stands for. -/
  | new (slot : Slot n) (name : Int) (recipe : Recipe) (body : Option (List (Step n)))
  | call (slot : Slot n) (arg : Int64)
  /-- Takes the one-shot out of a slot, calls it and drops it. -/
  | callOnce (slot : Slot n) (arg : Int64)
  /-- Makes a callable outside the slots, shows it, calls it some number of times and drops it. -/
  | fromFn (recipe : Recipe) (times : Nat)
  | move (source target : Slot n)
  | swap (first second : Slot n)
  | drop (slot : Slot n)
  | inspect (slot : Slot n)
  | panic (message : String)
  /-- A step that names nothing there is. -/
  | unknown

variable {n : Nat}

instance : Inhabited (Step n) := ⟨.unknown⟩

/-- What a step answers. -/
inductive Answer
  /-- The step names nothing there is. -/
  | absent
  /-- The step has no result. -/
  | done
  | made (isInline : Bool)
  | called (value : Except Refusal Int64)
  | shown (text : String) (calls : List (Except Refusal Int64)) (isEmpty : Bool)
  | inspected (isEmpty isInline : Bool) (text : String)

/-- A body ran inside a call. -/
inductive Event
  | ran (name : Int) (inner : List (Report Answer Event))

/-- A rack, and the bodies that names stand for. -/
structure World (n : Nat) where
  rack : Rack n := {}
  bodies : Table (List (Step n)) := .empty

/-- A step of a script over a rack. -/
abbrev Play (n : Nat) (α : Type) : Type := Dialogue.Play (World n) Event α

open Dialogue.Play (change look operate emit ensure aside inside)

/-- The body of a callable, which is empty if it has none. -/
def World.bodyOf (w : World n) (c : Callable) : List (Step n) :=
  match c.name with
  | none => []
  | some name => (w.bodies.get? name).getD []

/-- Makes a callable and puts it into a slot, and keeps the body that comes with it, if any. -/
def World.new (w : World n) (slot : Slot n) (name : Int) (recipe : Recipe)
    (body : Option (List (Step n))) : World n where
  rack := w.rack.new slot recipe
  bodies := body.elim w.bodies fun steps => w.bodies.put name steps

/-- Applies an operation of the rack. -/
def onRack (f : Rack n → Rack n) : Play n Unit :=
  change fun w => { w with rack := f w.rack }

/-- Runs a step and then, answered or interrupted, applies an operation of the rack. -/
def ensureOnRack {α : Type} (m : Play n α) (f : Rack n → Rack n) : Play n α :=
  ensure m fun w => { w with rack := f w.rack }

/-- Runs the body of a callable, if it has one. -/
def runBodyOf (inner : List (Step n) → Play n (List (Report Answer Event))) (c : Callable) :
    Play n Unit := do
  let body ← look (·.bodyOf c)
  match c.name, body with
  | some name, _ :: _ => emit (.ran name (← aside (inner body)))
  | _, _ => pure ()

/-- The call of a callable has begun: its body runs, it answers, and the call is finished, even if
the body panics. -/
def conduct (inner : List (Step n) → Play n (List (Report Answer Event))) (c : Callable)
    (arg : Int64) : Play n Int64 :=
  ensureOnRack (do runBodyOf inner c; return c.value arg) (·.finish)

/-- Calls what is in a place. -/
def call (inner : List (Step n) → Play n (List (Report Answer Event))) (p : Place n)
    (arg : Int64) : Play n (Except Refusal Int64) := do
  let begun ← operate fun w =>
    match w.rack.begin? p with
    | none => (none, w)
    | some (c, rack) => (some c, { w with rack })
  match begun with
  | none => return .error .noContinuation
  | some c => return .ok (← conduct inner c arg)

/-- Calls the loose one-shot some number of times: the first call takes its callable, and the later
ones find nothing. -/
def callTimes (inner : List (Step n) → Play n (List (Report Answer Event))) :
    Nat → Play n (List (Except Refusal Int64))
  | 0 => return []
  | times + 1 => do
    let answer ← call inner .loose 0
    return answer :: (← callTimes inner times)

/-- Shows the loose one-shot, calls it some number of times, and tells whether it is empty by
then. -/
def showCalls (inner : List (Step n) → Play n (List (Report Answer Event))) (times : Nat) :
    Play n Answer := do
  let text ← look fun w => (w.rack.content .loose).text
  let calls ← callTimes inner times
  let isEmpty ← look fun w => (w.rack.content .loose).isEmpty
  return .shown text calls isEmpty

/-- Performs one step, given how to run the body of a callable. -/
def perform (inner : List (Step n) → Play n (List (Report Answer Event))) :
    Step n → Play n Answer
  | .new slot name recipe body => do
    change (·.new slot name recipe body)
    return .made recipe.layout.isInline
  | .call slot arg => do
    return .called (← call inner (.slot slot) arg)
  | .callOnce slot arg => do
    onRack (·.takeOut slot)
    ensureOnRack (do return .called (← call inner .loose arg)) (·.dropLoose)
  | .fromFn recipe times => do
    onRack (·.newLoose recipe)
    ensureOnRack (showCalls inner times) (·.dropLoose)
  | .move i j => do onRack (·.move i j); return .done
  | .swap i j => do onRack (·.swap i j); return .done
  | .drop i => do onRack (·.drop i); return .done
  | .inspect i => do
    let k ← look fun w => w.rack.content (.slot i)
    return .inspected k.isEmpty k.isInline k.text
  | .panic message => Dialogue.Play.panic (.raised message)
  | .unknown => return .absent

/-- Runs the steps of a body, with a bound on the depth of the calls inside it. -/
def runBody : Nat → List (Step n) → Play n (List (Report Answer Event))
  | _, [] => return []
  | 0, _ :: _ => throw .outOfFuel
  | fuel + 1, step :: steps => inside (perform (runBody fuel)) (step :: steps)

theorem runBody_nil (fuel : Nat) : runBody fuel ([] : List (Step n)) = pure [] := by
  cases fuel <;> rfl

theorem runBody_succ (fuel : Nat) (steps : List (Step n)) :
    runBody (fuel + 1) steps = inside (perform (runBody fuel)) steps := by
  cases steps <;> rfl

/-- What is shown of the rack after a step. -/
structure View where
  /-- The first byte of each capture released during the step, in order. -/
  released : List (Option UInt8)
  full : List Bool

/-- What a step changed, and which slots are full after it. -/
def World.view (before after : World n) : View where
  released :=
    let news := after.rack.released.length - before.rack.released.length
    (after.rack.released.take news).reverse.map (·.tag?)
  full := after.rack.full

mutual

/-- How many steps a step consists of, itself and those of its body. -/
def Step.weight : Step n → Nat
  | .new _ _ _ (.some body) => weights body + 1
  | _ => 1

/-- How many steps a list of steps consists of. -/
def weights : List (Step n) → Nat
  | [] => 0
  | s :: steps => s.weight + weights steps

end

/-- A bound on the depth of calls in scripts of a weight that come to an end.  No more bodies are
given and no more names are in use than the script has steps.  So there are at most `weight + 2`
choices for the body that runs, for the body of each name, and for the content of each of the
slots. -/
def depthFor (slots weight : Nat) : Nat :=
  Nat.pow (weight + 2) (weight + slots + 1)

/-- Performs a script on an empty rack. -/
def runScript (steps : List (Step n)) : List (Line Answer Event View) :=
  Play.script (perform (runBody (depthFor n (weights steps)))) World.view {} steps

end Dialogue.OneShot
