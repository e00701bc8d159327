/-
Performing a deed.

Deeds are what callbacks do, and what anyone does through a handle.  Each takes effect at once, with
one exception: a stop that fires the signal lists what the signal's listeners have to do, in front
of everything else that is left to do, so that they have run before the stop returns.
-/
import Dialogue.Session.Basic

namespace Dialogue.Session

/-- Queues a message for the transmit region, unless the session is ending. -/
def send (s : Session) (message : String) : Session :=
  if s.progress.isEnding then s
  else
    let (notice, outbox) := s.outbox.push message
    { s with outbox }.passOn notice

/-- Fires the stop signal: what its listeners do comes next.  A second firing finds none. -/
def fireStop (s : Session) : Session :=
  { s with
    doing := (s.order (s.stopSignal.slots.map (·.2))).flatMap (·.deeds) ++ s.doing
    stopSignal := .fired }

/-- Chooses the reason to give to the peer, as long as nothing has ended the session. -/
def chooseReason (s : Session) (reason : CloseReason) : Session :=
  if s.progress.verdict.isNone then
    { s with progress := { s.progress with closeReason := reason } }
  else s

/-- The engine learns of the stop: the first verdict stays, a handshake is abandoned, and an active
session starts to close. -/
def onStop (s : Session) : Session :=
  let s := { s with progress := s.progress.judge .cancelled }
  match s.stage with
  | .notStarted | .closing | .closed => s
  | .handshaking => s.interruptHandshake
  | .active => { s with progress := { s.progress with stage := .closing } }.stopOutbox

/-- Notes the state of the session in its journal. -/
def note (s : Session) : Session :=
  s.emit (.note s.stage s.progress.transmission s.isClosed)

/-- A hook on the stop signal lets go of its registration. -/
def unhookStop (s : Session) (hook : Option Nat) : Session :=
  match hook with
  | none => s
  | some id => { s with stopSignal := s.stopSignal.disconnect id }

/-- Registers a callback on the stop signal, or runs it next if the signal has fired.  The hook it
replaces lets go. -/
def listen (s : Session) (id : Int) (acts : List Act) : Session :=
  let old := (s.tokens.get? id).getD none
  match s.stopSignal.register? (.token id acts) with
  | some (hook, signal) =>
    { s with stopSignal := signal, tokens := s.tokens.put id (some hook) }.unhookStop old
  | none =>
    { s with
      doing := Listener.deeds (.token id acts) ++ s.doing
      tokens := s.tokens.put id none }

/-- Drops the hook of such a callback. -/
def unlisten (s : Session) (id : Int) : Session :=
  match s.tokens.get? id with
  | none => s
  | some hook => { s with tokens := s.tokens.erase id }.unhookStop hook

/-- Makes a future that resolves when the session is over; the one it replaces lets go. -/
def createWaiter (s : Session) (id : Int) : Session :=
  let channel := s.channels
  let t := match s.closedSignal.register? channel with
    | some (hook, signal) =>
      { s with closedSignal := signal, waiters := s.waiters.put id ⟨some hook, channel⟩ }
    | none => { s with told := channel :: s.told, waiters := s.waiters.put id ⟨none, channel⟩ }
  let t := { t with channels := channel + 1 }
  match (s.waiters.get? id).bind (·.hook) with
  | none => t
  | some hook => { t with closedSignal := t.closedSignal.disconnect hook }

/-- Performs what happens to the connection, and wakes the operation that waits there. -/
def onLink (s : Session) (act : LinkAct) : Session :=
  { s with link := act.apply s.link }.touch

/-- The operations in progress go away with the future: a handshake without an outcome is abandoned,
and a wait on the outbox ends and takes nothing. -/
def releaseOperations (s : Session) : Session :=
  match s.position with
  | .handshaking | .awaiting => s.emit .abandoned
  | .active _ _ (.waiting t) => { s with outbox := s.outbox.withdraw t }
  | _ => s

/-- The session is closed and its outbox stopped, and what ended it is settled. -/
def settleProgress (s : Session) : Session :=
  { s with
    progress := { s.progress.judge .cancelled with
      stage := .closed
      transmission := .idle
      handshake := .absent
      receive := .absent } }.stopOutbox

/-- What the session reports as its end: a failure that was recorded, or that somebody asked. -/
def reason (s : Session) : Ending :=
  match s.progress.verdict with
  | some .failed => s.failure.getD .peerClosed
  | _ => .cancelled

/-- The future is gone and leaves nothing behind. -/
def vanish (s : Session) : Session :=
  { s.unhookEngine with position := .over, running := false }

/-- A panic tears down the callbacks in progress and, if it rose inside the future, the future.  The
session is closed then without a report; a panic inside the report leaves even the closed signal
unfired. -/
def tearDown (s : Session) (cause : Panic) : Session :=
  let s := { s with doing := [], panicked := some cause }
  if s.running then
    match s.position with
    | .concluding _ _ => s.vanish
    | _ => { s.releaseOperations.settleProgress with failure := none }.fireClosed.vanish
  else s

/-- Performs an act. -/
def act (s : Session) : Act → Session
  | .send message => s.send message
  | .echo => s.send ""
  | .stop => s.fireStop
  | .stopWith reason => (s.chooseReason reason).fireStop
  | .note => s.note
  | .panic message => s.tearDown (.raised message)
  | .closed id => s.createWaiter id
  | .listen id acts => s.listen id acts
  | .unlisten id => s.unlisten id
  | .tokenFired => s
  | .debug => s
  | .link a => s.onLink a

/-- Performs a deed. -/
def perform (s : Session) : Deed → Session
  | .act a => s.act a
  | .engineStop => s.onStop
  | .heard id => { s with heard := s.heard ++ [id] }

end Dialogue.Session
