/-
Scripts over one session.

A step is an act, performed from outside, or it concerns the task of the session: handing it over,
running it, dropping it.  Whatever a step starts runs to its end before the next step; the bound on
that would be used up only by a session that keeps itself busy for ever.
-/
import Dialogue.Session.Advance

namespace Dialogue.Session

/-- One step on a session. -/
inductive Step
  | act (a : Act)
  /-- Hands the engine over; `reported` says that what the future resolves to is of interest. -/
  | start (reported : Bool)
  /-- Runs the executor until nothing is ready. -/
  | poll
  /-- Drops the future. -/
  | drop
  | dropEngine
  /-- The executor accepts no more tasks. -/
  | shutdown
  /-- A step that names nothing there is. -/
  | unknown

/-- What a step answers. -/
inductive Answer
  /-- The step names nothing there is. -/
  | absent
  /-- The step has no result. -/
  | done
  | flag (b : Bool)
  | text (t : String)
deriving DecidableEq, Repr

/-- What an act answers when it is performed from outside. -/
def answerTo (s : Session) : Act → Answer
  | .listen _ _ => .flag !s.stopSignal.isFired
  | .tokenFired => .flag s.stopSignal.isFired
  | .debug => .text s.handleText
  | _ => .done

/-- A session under a script. -/
structure Stand where
  session : Session
  /-- The future was handed over by someone who wants to know what it resolves to. -/
  reported : Bool := false

/-- What is shown after a step. -/
structure View where
  stage : Stage
  transmission : Transmission
  /-- The `closed` futures that became ready. -/
  closed : List Int
  /-- The stop-token callbacks that ran. -/
  tokens : List Int
  /-- What the future resolved to. -/
  result : Option Ending

/-- The numbers of the `closed` futures that are ready. -/
def readyWaiters (s : Session) : List Int :=
  (s.waiters.entries.filter fun (_, w) => s.told.contains w.channel).map (·.1)

/-- What the journal of a session says beyond that of an earlier state of it. -/
def writtenSince (s earlier : Session) : List Event :=
  (s.log.take (s.log.length - earlier.log.length)).reverse

/-- Forgets what was shown. -/
def forget (s : Session) : Session :=
  { s with
    waiters := s.readyWaiters.foldl (·.erase ·) s.waiters
    heard := []
    result := none
    panicked := none }

/-- Starts a step: what it answers, and the session as it stands before anything has run. -/
def Stand.begin (s : Stand) : Step → Answer × Stand
  | .act a => (s.session.answerTo a, { s with session := s.session.act a })
  | .start reported =>
    match s.session.position with
    | .engine => (.done, { session := s.session.spawn, reported })
    | _ => (.absent, s)
  | .poll => (.done, s)
  | .drop => (.done, { s with session := s.session.dropFuture })
  | .dropEngine =>
    match s.session.position with
    | .engine => (.flag true, { s with session := s.session.dropEngine })
    | _ => (.flag false, s)
  | .shutdown => (.done, { s with session := { s.session with accepting := false } })
  | .unknown => (.absent, s)

/-- Runs what a step started. -/
def Stand.run (bound : Nat) (s : Stand) : Step → Stand
  | .poll => { s with session := s.session.drain bound bound }
  | _ => { s with session := s.session.settle bound }

/-- Whether handing over was refused. -/
def Stand.refused (s : Stand) : Step → Bool
  | .start _ => s.session.position = .engine && !s.session.accepting
  | _ => false

/-- Performs a step. -/
def Stand.step (bound : Nat) (s : Stand) (step : Step) : Line Answer Event View × Stand :=
  let refused := s.refused step
  let (answer, t) := s.begin step
  let t := t.run bound step
  let answer :=
    match t.session.panicked with
    | some cause => .error (.panic cause)
    | none =>
      if !t.session.isQuiet then .error .outOfFuel
      else if refused then .error (.panic .spawnRefused)
      else .ok answer
  let shown : View :=
    { stage := t.session.stage
      transmission := t.session.progress.transmission
      closed := t.session.readyWaiters.mergeSort (· ≤ ·)
      tokens := t.session.heard.mergeSort (· ≤ ·)
      result := if t.reported then t.session.result else none }
  (⟨answer, t.session.writtenSince s.session, shown⟩,
    { t with session := t.session.forget })

/-- Performs steps in order. -/
def Stand.steps (bound : Nat) : Stand → List Step → List (Line Answer Event View)
  | _, [] => []
  | s, step :: rest =>
    let (line, s) := s.step bound step
    line :: steps bound s rest

mutual

/-- How many acts an act consists of, itself and those of its callback. -/
def Act.weight : Act → Nat
  | .listen _ acts => actsWeight acts + 1
  | _ => 1

/-- How many acts a list of acts consists of. -/
def actsWeight : List Act → Nat
  | [] => 0
  | a :: acts => a.weight + actsWeight acts

end

/-- How many acts the rules consist of, with one more for each rule. -/
def Rules.weight (r : Rules) : Nat :=
  r.onMessage.foldl (fun n rule => n + actsWeight rule.acts + 1)
    (actsWeight r.onConnected + actsWeight r.onError + actsWeight r.onClosed)

/-- How many acts a step consists of. -/
def Step.weight : Step → Nat
  | .act a => a.weight
  | _ => 1

/-- A bound on the single steps of a session that does not keep itself busy for ever, given the
weight of its rules and that of everything together.  A message may bring others, through what its
rule does.  Unless that goes on for ever, no message brings one for the same rule, not even by way
of others: so there are no more generations of messages than rules, and each message has no more
children than there are acts. -/
def boundFor (rules weight : Nat) : Nat :=
  64 * (weight + 8) * (weight + 8) * Nat.pow (rules + 2) (rules + 4)

/-- What a session is made of. -/
structure Setup where
  settings : Settings := {}
  link : Link := {}
  /-- What is done at the start of the handshake. -/
  opening : List Act := []
  rules : Rules := {}

/-- The session as it is made. -/
def Setup.session (u : Setup) : Session :=
  .create u.settings u.link u.opening u.rules.handler

/-- How many acts belong to a setup. -/
def Setup.weight (u : Setup) : Nat :=
  actsWeight u.opening + u.rules.weight

/-- Performs a script on a session as it is made. -/
def runScript (u : Setup) (steps : List Step) : List (Line Answer Event View) :=
  let bound := boundFor u.rules.weight (steps.foldl (fun n step => n + step.weight) u.weight)
  Stand.steps bound { session := u.session } steps

end Dialogue.Session
