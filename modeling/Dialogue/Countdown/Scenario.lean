/-
A session under a deadline, in virtual time.

The clock stands still while anything can run and then jumps to the next timer.  There are two: the
next entry of a timeline of acts, and the watcher's own, which is the moment it starts to watch, the
end of its pause, or the moment after its answer at which the scenario ends.  At each instant the
watcher acts first, then the timeline, and the session runs afterwards; the watcher then learns
whether the session is over.

The watcher answers that the time ran out if it stopped the session, and that it did not if the
session was over while it paused.
-/
import Dialogue.Countdown.Deadline
import Dialogue.Session.Script

namespace Dialogue.Countdown

open Dialogue.Session (Act Event Setup)

/-- What happens in a scenario. -/
structure Plan where
  setup : Setup := {}
  deadline : Deadline
  /-- What is done before the session is handed over. -/
  before : List Act := []
  /-- How long to wait before the watch.  A wait of no length is none. -/
  startAfter : Nat := 0
  /-- Acts and the times from which they are due, in this order. -/
  timeline : List (Nat × List Act) := []
  /-- What the notices with these numbers do, as they are given; notices are numbered from 1. -/
  noticeActs : Table (List Act) := .empty
  /-- Whether the notice with a number is sent to the peer. -/
  noticeSent : Nat → Bool := fun _ => false

/-- Where the watcher is. -/
inductive Watcher
  /-- The watch begins at a time. -/
  | waiting (start : Nat)
  /-- Watching since a time, until the time is spent, and pausing until a time. -/
  | watching (since expires wake : Nat)
  /-- The answer, what it took, and when the scenario ends. -/
  | leaving (timedOut : Bool) (elapsed finish : Nat)
deriving DecidableEq, Repr

/-- When the watcher has to look again. -/
def Watcher.wake : Watcher → Nat
  | waiting start => start
  | watching _ _ wake => wake
  | leaving _ _ finish => finish

/-- A scenario in progress. -/
structure Scenario where
  now : Nat := 0
  session : Session
  watcher : Watcher
  timeline : List (Nat × List Act)
  /-- How many notices were given. -/
  notices : Nat := 0
  /-- What was left at each notice, the last one first. -/
  calls : List Nat := []
  /-- The entries of the session's journal with their times, the last one first. -/
  journal : List (Nat × Event) := []

namespace Scenario

/-- Performs acts on the session from outside.  Only a panic among these acts is shown afterwards:
one that rose in the session before is no concern of whoever performs them. -/
def perform (bound : Nat) (s : Scenario) (acts : List Act) : Scenario :=
  { s with session := ({ s.session with panicked := none }.callback acts).settle bound }

/-- Moves the entries of the session's journal into that of the scenario, at the present time. -/
def stamp (s : Scenario) : Scenario :=
  { s with
    journal := (s.session.log.map fun e => (s.now, e)) ++ s.journal
    session := { s.session with log := [] } }

/-- Gives notice of the time left: the notice acts, and then its message is sent, if it has one. -/
def giveNotice (bound : Nat) (plan : Plan) (s : Scenario) (left : Nat) : Scenario :=
  let call := s.notices + 1
  let s := { s with notices := call, calls := left :: s.calls }
  let s := s.perform bound ((plan.noticeActs.get? call).getD [])
  if plan.noticeSent call then s.perform bound [.send (toString left ++ " ms left")] else s

/-- The watcher looks at the clock: it stops the session if the time is spent, and else pauses. -/
def look (bound : Nat) (plan : Plan) (s : Scenario) (since expires : Nat) : Scenario :=
  let left := expires - s.now
  match plan.deadline.round left with
  | .expired =>
    { s.perform bound [.stopWith .timedOut] with
      watcher := .leaving true (s.now - since) (s.now + 1) }
  | .pause notice length =>
    let s := if notice then s.giveNotice bound plan left else s
    { s with watcher := .watching since expires (s.now + length) }

/-- The watch begins. -/
def beginWatch (bound : Nat) (plan : Plan) (s : Scenario) : Scenario :=
  s.look bound plan s.now (plan.deadline.expires s.now)

/-- The watcher learns whether the session is over, and leaves if it is.  Only a watcher that pauses
learns anything. -/
def heed (s : Scenario) : Scenario :=
  match s.watcher with
  | .watching since _ _ =>
    if s.session.closedSignal.isFired then
      { s with watcher := .leaving false (s.now - since) (s.now + 1) }
    else s
  | _ => s

/-- The session runs until it has to wait, and the watcher learns whether it is over. -/
def runSession (bound : Nat) (s : Scenario) : Scenario :=
  { s with session := s.session.drain bound bound }.stamp.heed

/-- The watcher's timer went off.  A watcher that has left does not look again. -/
def onWatcher (bound : Nat) (plan : Plan) (s : Scenario) : Option Scenario :=
  match s.watcher with
  | .waiting _ => some (s.beginWatch bound plan)
  | .watching since expires _ => some (s.look bound plan since expires)
  | .leaving _ _ _ => none

/-- Performs the entries of a timeline that are due, one right after the other, and keeps the rest.
A panic among the acts of an entry takes the rest of the timeline with it. -/
def performDue (bound : Nat) : List (Nat × List Act) → Scenario → Scenario
  | [], s => { s with timeline := [] }
  | (due, acts) :: rest, s =>
    if s.now < due then
      { s with timeline := (due, acts) :: rest }
    else
      let t := s.perform bound acts
      if t.session.panicked.isSome then { t with timeline := [] } else performDue bound rest t

/-- When the next timer goes off. -/
def nextTime (s : Scenario) : Nat :=
  match s.timeline with
  | (due, _) :: _ => min (max due s.now) s.watcher.wake
  | [] => s.watcher.wake

/-- The next timers go off: the watcher's, if it is one of them, and then the timeline's. -/
def onTimer (bound : Nat) (plan : Plan) (s : Scenario) : Option Scenario :=
  let t := { s with now := s.nextTime }
  let looked := if t.watcher.wake = t.now then t.onWatcher bound plan else some t
  looked.map fun u => u.performDue bound u.timeline

/-- Runs from timer to timer, within a bound on their number. -/
def run (bound : Nat) (plan : Plan) : Nat → Scenario → Scenario
  | 0, s => s
  | n + 1, s =>
    let s := s.runSession bound
    match s.onTimer bound plan with
    | none => s
    | some t => run bound plan n t

end Scenario

/-- The scenario of a plan as it begins.  The session is handed over before the timeline starts, and
the watcher looks before either runs; so the session has its first turn, and what is due at once is
done before it has a second. -/
def Plan.begin (bound : Nat) (plan : Plan) : Scenario :=
  let s : Scenario :=
    { session := plan.setup.session
      watcher := .waiting plan.startAfter
      timeline := plan.timeline }
  let s := s.perform bound plan.before
  let s := { s with session := s.session.spawn }
  let s := if plan.startAfter = 0 then s.beginWatch bound plan else s
  { s with session := s.session.takeTurn bound }.performDue bound plan.timeline

/-- How a scenario came out. -/
structure Outcome where
  timedOut : Bool
  elapsed : Nat
  tick : Nat
  calls : List Nat
  stage : Session.Stage
  transmission : Session.Transmission
  stopped : Bool
  journal : List (Nat × Event)

/-- How many acts a plan consists of, and one more for every entry of the timeline. -/
def Plan.weight (plan : Plan) : Nat :=
  let timed := plan.timeline.foldl (fun n (_, acts) => n + Session.actsWeight acts + 1)
    (plan.setup.weight + Session.actsWeight plan.before)
  plan.noticeActs.values.foldl (fun n acts => n + Session.actsWeight acts) timed

/-- How many pauses a watch takes at most. -/
def Deadline.pauses (d : Deadline) : Nat :=
  if d.tick = 0 then 1 else d.budget / d.tick + 1

/-- Runs the scenario of a plan to its end. -/
def Plan.outcome (plan : Plan) : Outcome :=
  let pauses := plan.deadline.pauses
  let bound := Session.boundFor plan.setup.rules.weight (plan.weight + pauses)
  let s := (plan.begin bound).run bound plan (pauses + plan.timeline.length + 4)
  let (timedOut, elapsed) := match s.watcher with
    | .leaving timedOut elapsed _ => (timedOut, elapsed)
    | _ => (false, 0)
  { timedOut, elapsed
    tick := plan.deadline.tick
    calls := s.calls.reverse
    stage := s.session.stage
    transmission := s.session.progress.transmission
    stopped := s.session.stopSignal.isFired
    journal := s.journal.reverse }

end Dialogue.Countdown
