/-
A session and where it is.

A session is a task of one future.  Polling the future runs it until it has to wait; in between, the
future keeps its place.  `Position` is that place: which operation it waits for, or, while it runs,
what it does next.  Handlers run in the middle of a poll, and what they do may end the session under
the poll's feet; so the acts of a callback are not performed by the poll but listed in `doing`, and
the poll goes on when the list is empty.  Whoever reasons about a session has to look at single
steps only: perform one deed, or go one position further.

While the session is active, two regions take turns within a poll: first the receive region hands on
every frame there is, then the transmit region writes what is queued.
-/
import Dialogue.Broadcast.Signal
import Dialogue.Handoff.Queue
import Dialogue.Script
import Dialogue.Session.Handler
import Dialogue.Table
import Dialogue.Text.Quoted

namespace Dialogue

namespace Session

/-- What a session's journal holds. -/
inductive Event
  /-- The handshake was polled for the first time. -/
  | handshake
  /-- The handshake was dropped before it had an outcome. -/
  | abandoned
  | connected (name : String)
  | message (text : String)
  | error (e : Ending)
  | closed (e : Ending)
  /-- A write was started. -/
  | write (text : String)
  /-- The session's side of the connection was closed. -/
  | wireClosed
  | note (stage : Stage) (transmission : Transmission) (isClosed : Bool)
deriving DecidableEq, Repr

/-- Where the receive region is. -/
inductive Receiving
  /-- About to read the next frame, or waiting for it. -/
  | reading
  /-- A failure was reported to the handler and is about to be recorded. -/
  | failing (e : Ending)
  | done
deriving DecidableEq, Repr

/-- Where the transmit region is. -/
inductive Transmitting
  /-- About to wait on the outbox. -/
  | asking
  /-- Waiting on the outbox. -/
  | waiting (t : Nat)
  /-- About to write a message. -/
  | writing (message : String)
  /-- A message is being written. -/
  | flushing
  /-- About to write the close frame. -/
  | announcing (frame : String)
  /-- The close frame is being written. -/
  | announced
  /-- About to close the sink, or waiting for that. -/
  | closing
  /-- A failure was reported to the handler and is about to be recorded. -/
  | failing (e : Ending)
  | done
deriving DecidableEq, Repr

/-- Whose turn it is in a poll. -/
inductive Turn
  | receive
  | transmit
deriving DecidableEq, Repr

/-- Where the future of a session is. -/
inductive Position
  /-- The engine has not been handed over. -/
  | engine
  /-- The engine was dropped without being handed over. -/
  | neverRun
  /-- Handed over and never polled. -/
  | spawned
  /-- The transport makes the handshake, which has not been polled yet. -/
  | preparing
  /-- Waiting for the handshake; a poll that finds it here first looks for an interrupt. -/
  | handshaking
  /-- About to look for the outcome of the handshake. -/
  | awaiting
  /-- The failure of the handshake was reported and is about to be recorded. -/
  | refusing (e : Ending)
  /-- The handshake succeeded. -/
  | opened
  /-- Closing a stream that nobody will use, or waiting for that. -/
  | discarding
  | active (turn : Turn) (rx : Receiving) (tx : Transmitting)
  /-- About to conclude; `resolves` says that the future does, and is not merely dropped. -/
  | finishing (resolves : Bool)
  /-- The end was reported to the handler. -/
  | concluding (reason : Ending) (resolves : Bool)
  | over
deriving DecidableEq, Repr

/-- What is registered on the stop signal. -/
inductive Listener
  /-- The engine's own callback. -/
  | engine
  | token (id : Int) (acts : List Act)

/-- A single thing to do on behalf of a callback. -/
inductive Deed
  | act (a : Act)
  /-- The engine learns that the stop signal fired. -/
  | engineStop
  /-- The callback of a token was run. -/
  | heard (id : Int)

/-- What running a listener amounts to. -/
def Listener.deeds : Listener → List Deed
  | engine => [.engineStop]
  | token id acts => .heard id :: acts.map .act

/-- A future that resolves when the session is over. -/
structure Waiter where
  hook : Option Nat
  /-- The place where it looks for the word that the session is over. -/
  channel : Nat

end Session

/-- A session, its connection, and what was made of its handles. -/
structure Session where
  name : String
  progress : Session.Progress
  outbox : Handoff.Queue String Empty Unit := {}
  stopSignal : Broadcast.Signal Session.Listener
  closedSignal : Broadcast.Signal Nat := .fresh
  /-- The engine's registration on the stop signal. -/
  engineHook : Option Nat
  /-- The order in which the stop signal goes through its listeners. -/
  order : List Session.Listener → List Session.Listener := id
  /-- The failure that ended the session, recorded after the handler was told. -/
  failure : Option Ending := none
  position : Session.Position := .engine
  /-- The future is being polled, or is ending because it was dropped. -/
  running : Bool := false
  /-- What callbacks in progress have still to do. -/
  doing : List Session.Deed := []
  /-- The task is in the line of its executor. -/
  queued : Bool := false
  /-- The executor accepts tasks. -/
  accepting : Bool := true
  link : Session.Link := {}
  /-- What is done at the start of the handshake. -/
  opening : List Session.Act := []
  handler : Session.Handler := {}
  /-- How many messages were given to the handler. -/
  handled : Nat := 0
  /-- The hooks of stop-token callbacks, by number. -/
  tokens : Table (Option Nat) := .empty
  /-- The `closed` futures, by number. -/
  waiters : Table Session.Waiter := .empty
  /-- How many channels were made. -/
  channels : Nat := 0
  told : List Nat := []
  /-- What was written into the journal, the last entry first. -/
  log : List Session.Event := []
  /-- The stop-token callbacks that ran. -/
  heard : List Int := []
  /-- What the future resolved to. -/
  result : Option Ending := none
  /-- What tore down the code that ran last. -/
  panicked : Option Panic := none

namespace Session

open Broadcast (Signal)
open Handoff (Notice)

/-- A session that has not started; its engine is registered on the stop signal. -/
def create (settings : Settings) (link : Link) (opening : List Act) (handler : Handler) :
    Session where
  name := settings.name
  progress := settings.progress
  stopSignal := .armed 1 [(0, .engine)]
  engineHook := some 0
  link := link
  opening := opening
  handler := handler

def stage (s : Session) : Stage := s.progress.stage

/-- The session has ended for whoever holds a handle. -/
def isClosed (s : Session) : Bool := s.stage = .closed

/-- Nothing is in progress: no callback has anything left to do, and the future is not running. -/
def isQuiet (s : Session) : Bool := s.doing.isEmpty && !s.running

/-- The text of a handle. -/
def handleText (s : Session) : String :=
  "SessionHandle \x7b name: " ++ Text.quoted s.name ++ ", state: " ++ s.stage.name
    ++ ", tx: " ++ s.progress.transmission.name ++ " \x7d"

/-- The journal: what happened, in order. -/
def journal (s : Session) : List Event :=
  s.log.reverse

/-- Writes an event into the journal. -/
def emit (s : Session) (e : Event) : Session :=
  { s with log := e :: s.log }

@[simp] theorem journal_emit (s : Session) (e : Event) :
    (s.emit e).journal = s.journal ++ [e] := by
  simp [journal, emit]

/-- Puts the task into the line of its executor. -/
def wake (s : Session) : Session :=
  { s with queued := true }

/-- Wakes the task if it listens. -/
def wakeIf (s : Session) (listening : Bool) : Session :=
  if listening then s.wake else s

/-- Passes on what the outbox wants done.  Only the session waits on it, with a future. -/
def passOn (s : Session) : Option (Notice Unit) → Session
  | some (.wake _) => s.wake
  | _ => s

/-- Wakes the operation that waits on the connection. -/
def touch (s : Session) : Session :=
  { s with link := { s.link with listening := false } }.wakeIf s.link.listening

/-- Stops the outbox. -/
def stopOutbox (s : Session) : Session :=
  let (notice, outbox) := s.outbox.stop
  { s with outbox }.passOn notice

/-- Ends the receiving operation, if there is one. -/
def interruptReceive (s : Session) : Session :=
  match s.progress.receive with
  | .ready listening =>
    { s with progress := { s.progress with receive := .pulled } }.wakeIf listening
  | _ => s

/-- Ends the handshake, if there is one. -/
def interruptHandshake (s : Session) : Session :=
  match s.progress.handshake with
  | .ready listening =>
    { s with progress := { s.progress with handshake := .pulled } }.wakeIf listening
  | _ => s

/-- Fires the closed signal: every `closed` future is told. -/
def fireClosed (s : Session) : Session :=
  { s with
    told := s.closedSignal.slots.map (·.2) ++ s.told
    closedSignal := .fired }

/-- The engine's registration goes. -/
def unhookEngine (s : Session) : Session :=
  match s.engineHook with
  | none => s
  | some id => { s with stopSignal := s.stopSignal.disconnect id, engineHook := none }

/-! ### Waking leaves the record of progress alone -/

@[simp] theorem progress_wake (s : Session) : s.wake.progress = s.progress := rfl

@[simp] theorem progress_wakeIf (s : Session) (b : Bool) : (s.wakeIf b).progress = s.progress := by
  unfold wakeIf; split <;> rfl

@[simp] theorem progress_passOn (s : Session) (n : Option (Notice Unit)) :
    (s.passOn n).progress = s.progress := by
  unfold passOn; split <;> rfl

@[simp] theorem progress_touch (s : Session) : s.touch.progress = s.progress := by
  simp [touch]

@[simp] theorem progress_stopOutbox (s : Session) : s.stopOutbox.progress = s.progress := by
  simp [stopOutbox]

@[simp] theorem progress_emit (s : Session) (e : Event) : (s.emit e).progress = s.progress := rfl

/-- An interrupt ends an operation and changes nothing else in the record. -/
theorem progress_interruptReceive (s : Session) :
    s.interruptReceive.progress =
      { s.progress with receive :=
          match s.progress.receive with
          | .ready _ => .pulled
          | r => r } := by
  unfold interruptReceive
  split
  · simp
  · next h =>
    cases hr : s.progress.receive with
    | ready b => exact absurd hr (h b)
    | absent => simp [← hr]
    | pulled => simp [← hr]

end Session

end Dialogue
