/-
Scripts over a roster.

Two kinds of tasks run here: jobs, which carry steps to perform once, and countdowns, which wake
themselves at every poll until they reach zero.  A job runs at most once and a countdown as often as
it says, so the polls of a whole script are bounded by what is written in it.
-/
import Dialogue.Roster.Basic
import Dialogue.Script

namespace Dialogue.Roster

/-- One step on a roster. -/
inductive Step
  | post (id : Int) (body : List Step)
  /-- Posts a job that holds nothing to call. -/
  | postEmpty
  | spawn (id : Int) (left : Nat)
  | runOne
  | run
  | shutdown
  | panic (message : String)
  /-- A step that names nothing there is. -/
  | unknown

instance : Inhabited Step := ⟨.unknown⟩

/-- A task of a script. -/
inductive Task
  | job (id : Int) (body : List Step)
  | hollow
  | countdown (id : Int) (left : Nat)

/-- What a step answers. -/
inductive Answer
  /-- The step names nothing there is. -/
  | absent
  /-- The step has no result. -/
  | done
  | flag (b : Bool)
  | count (n : Nat)

/-- A task was polled. -/
inductive Event
  | job (id : Int) (inner : List (Report Answer Event))
  | countdown (id : Int) (left : Nat)

/-- A step of a script over a roster. -/
abbrev Play (α : Type) : Type := Dialogue.Play (Roster Task) Event α

open Dialogue.Play (change operate emit aside inside repeated)

/-- Appends a task; a roster that was shut down refuses it with a panic. -/
def submit (task : Task) : Play Unit := do
  let accepted ← operate fun r =>
    match r.spawn? task with
    | some r => (true, r)
    | none => (false, r)
  unless accepted do Dialogue.Play.panic .spawnRefused

/-- Polls the task at the head, if there is one. -/
def runTask (inner : List Step → Play (List (Report Answer Event))) : Play Bool := do
  let taken ← operate fun r =>
    match r.next? with
    | some (task, r) => (some task, r)
    | none => (none, r)
  match taken with
  | none => return false
  | some (.job id body) =>
    emit (.job id (← aside (inner body)))
    return true
  | some .hollow => Dialogue.Play.panic .emptyJob
  | some (.countdown id left) =>
    emit (.countdown id left)
    if left > 0 then
      change (·.requeue (.countdown id (left - 1)))
    return true

/-- Performs one step, given how to run the steps of a job and a bound on the polls of one step. -/
def perform (polls : Nat) (inner : List Step → Play (List (Report Answer Event))) :
    Step → Play Answer
  | .post id body => do
    submit (.job id body)
    return .done
  | .postEmpty => do
    submit .hollow
    return .done
  | .spawn id left => do
    submit (.countdown id left)
    return .done
  | .runOne => return .flag (← runTask inner)
  | .run => return .count (← repeated (runTask inner) polls)
  | .shutdown => do
    change (·.shutdown)
    return .done
  | .panic message => Dialogue.Play.panic (.raised message)
  | .unknown => return .absent

/-- Runs the steps of a job, with a bound on how deep jobs run inside one another. -/
def runBody (polls : Nat) : Nat → List Step → Play (List (Report Answer Event))
  | 0, _ => throw .outOfFuel
  | fuel + 1, steps => inside (perform polls (runBody polls fuel)) steps

mutual

/-- How many polls a step can give rise to, and one more. -/
def Step.weight : Step → Nat
  | .post _ body => weights body + 2
  | .spawn _ left => left + 2
  | _ => 2

/-- How many polls a list of steps can give rise to, and one more for each step. -/
def weights : List Step → Nat
  | [] => 0
  | s :: steps => s.weight + weights steps

end

/-- Performs a script on an empty roster; a line shows how many tasks are ready after its step. -/
def runScript (steps : List Step) : List (Line Answer Event Nat) :=
  let bound := weights steps + 1
  Play.script (perform bound (runBody bound bound)) (fun _ after => after.ready.length) {} steps

end Dialogue.Roster
