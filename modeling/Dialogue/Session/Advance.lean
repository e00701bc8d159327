/-
Running a session.

`advance` takes the future one position further.  Between two positions lies at most one operation
of the connection, one wait on the outbox or one callback, and whatever a callback does is done
before the next position is looked at.  `tick` is the single step of everything: a deed if there is
one, else a position.

Three orders matter and are the same in every poll.  An interrupt is looked for before the operation
it would end; an operation that completes in the very poll in which it is interrupted has completed;
and one that would wait looks for the interrupt again before it does.
-/
import Dialogue.Session.Perform

namespace Dialogue.Session

/-- The future goes on at a position. -/
def goto (s : Session) (p : Position) : Session :=
  { s with position := p }

/-- The poll ends here; the future keeps its place. -/
def suspend (s : Session) (p : Position) : Session :=
  { s with position := p, running := false }

/-- The poll ends here, waiting for the connection. -/
def suspendOnLink (s : Session) (p : Position) : Session :=
  { s with link := { s.link with listening := true } }.suspend p

/-- A callback of the handler runs before the future goes on. -/
def callback (s : Session) (acts : List Act) : Session :=
  { s with doing := acts.map .act ++ s.doing }

/-- A failure was observed.  The session is closed.  If nothing had ended it before, the handler is
told, and the failure is recorded when the handler has returned; otherwise nothing is reported. -/
def fail (s : Session) (e : Ending) (recording after : Position) : Session :=
  let first := s.progress.verdict.isNone
  let t := { s with
    progress := { s.progress.judge .failed with stage := .closed } }.interruptReceive.stopOutbox
  if first then
    ((t.emit (.error e)).callback (t.handler.onError e)).goto recording
  else
    t.goto after

/-- A failure is recorded, now that the handler was told. -/
def record (s : Session) (e : Ending) (after : Position) : Session :=
  { s with failure := some e }.goto after

/-- The transport is asked for the handshake, unless the session was stopped before. -/
def begin (s : Session) : Session :=
  if s.progress.verdict.isSome then
    s.goto (.finishing true)
  else
    { s with
      progress := { s.progress with
        stage := .handshaking
        handshake := .ready false } }.goto .preparing

/-- The handshake begins, unless it was interrupted while the transport made it. -/
def beginHandshake (s : Session) : Session :=
  if s.progress.handshake = .pulled then
    (s.emit .abandoned).goto (.finishing true)
  else
    ((s.emit .handshake).callback s.opening).goto .awaiting

/-- A handshake that was waiting goes on, unless it was interrupted meanwhile. -/
def resumeHandshake (s : Session) : Session :=
  if s.progress.handshake = .pulled then
    (s.emit .abandoned).goto (.finishing true)
  else
    s.goto .awaiting

/-- The handshake completes, or waits, or was interrupted while it began. -/
def awaitHandshake (s : Session) : Session :=
  match s.link.outcome with
  | some (.ok ()) => { s with link := { s.link with outcome := none } }.goto .opened
  | some (.error text) =>
    let e := Ending.transport .handshake text
    { s with link := { s.link with outcome := none } }.fail e (.refusing e) (.finishing true)
  | none =>
    if s.progress.handshake = .pulled then
      (s.emit .abandoned).goto (.finishing true)
    else
      { s with progress := { s.progress with handshake := .ready true } }.suspendOnLink .handshaking

/-- The stream is open: the session becomes active, unless it was stopped meanwhile. -/
def enterActive (s : Session) : Session :=
  let s := { s with progress := { s.progress with handshake := .absent } }
  if s.progress.verdict.isSome then
    s.goto .discarding
  else
    let s := { s with progress := { s.progress with stage := .active, receive := .ready false } }
    ((s.emit (.connected s.name)).callback s.handler.onConnected).goto
      (.active .receive .reading .asking)

/-- The session's side of the connection is closed. -/
def wireClosed (s : Session) : Session :=
  let s := s.emit .wireClosed
  if s.link.hangsUp then { s with link := { s.link with ended := true } }.touch else s

/-- A stream that nobody will use is closed; whether that succeeds does not matter. -/
def discard (s : Session) : Session :=
  match s.link.closeFault with
  | some _ => s.goto (.finishing true)
  | none =>
    if s.link.closeHeld then s.suspendOnLink .discarding
    else s.wireClosed.goto (.finishing true)

/-- One step of the receive region. -/
def receive (s : Session) (rx : Receiving) (tx : Transmitting) : Session :=
  let done := Position.active .receive .done tx
  match rx with
  | .done => s.goto (.active .transmit .done tx)
  | .failing e => s.record e done
  | .reading =>
    if s.progress.receive = .pulled then s.goto done
    else
      match s.link.next? with
      | some (.ok message, link) =>
        let t := { s with link, handled := s.handled + 1 }
        (t.emit (.message message)).callback (s.handler.onMessage s.handled message)
      | some (.error text, link) =>
        let e := Ending.transport .read text
        { s with link }.fail e (.active .receive (.failing e) tx) done
      | none =>
        if s.link.ended then
          if s.stage = .active then
            s.fail .peerClosed (.active .receive (.failing .peerClosed) tx) done
          else s.goto done
        else
          { s with
            link := { s.link with listening := true }
            progress := { s.progress with receive := .ready true } }.goto
            (.active .transmit .reading tx)

/-- The end of the outbox: a session that is closing says so to its peer, any other just ends. -/
def beginClose (s : Session) (rx : Receiving) : Session :=
  if s.stage = .closing then
    if s.link.framed then
      s.goto (.active .transmit rx (.announcing s.progress.closeReason.announcement))
    else
      s.goto (.active .transmit rx .closing)
  else
    s.goto (.active .transmit rx .done)

/-- A failure of the transmit region. -/
def failTransmit (s : Session) (rx : Receiving) (phase : Phase) (text : String) : Session :=
  let e := Ending.transport phase text
  s.fail e (.active .transmit rx (.failing e)) (.active .transmit rx .done)

/-- Whether a message is being written. -/
def setTransmission (s : Session) (t : Transmission) : Session :=
  { s with progress := { s.progress with transmission := t } }

/-- One step of the transmit region. -/
def transmit (s : Session) (rx : Receiving) (tx : Transmitting) : Session :=
  match tx with
  | .asking =>
    match s.outbox.wait? (.future · none) with
    | some (t, notice, outbox) =>
      ({ s with outbox }.passOn notice).goto (.active .transmit rx (.waiting t))
    | none => s.tearDown .outboxTaken
  | .waiting t =>
    let (polled, outbox) := s.outbox.poll t ()
    let s := { s with outbox }
    match polled with
    | .delivered (.value message) =>
      (s.setTransmission .sending).goto (.active .transmit rx (.writing message))
    | .delivered .cancelled | .withdrawn => s.beginClose rx
    | .pending => s.suspend (.active .receive rx (.waiting t))
  | .writing message =>
    match s.link.sendFault with
    | some text => (s.setTransmission .idle).failTransmit rx .write text
    | none => (s.emit (.write message)).goto (.active .transmit rx .flushing)
  | .flushing =>
    match s.link.flushFault with
    | some text => (s.setTransmission .idle).failTransmit rx .write text
    | none =>
      if s.link.held then s.suspendOnLink (.active .receive rx .flushing)
      else (s.setTransmission .idle).goto (.active .transmit rx .asking)
  | .announcing frame =>
    match s.link.sendFault with
    | some text => s.failTransmit rx .close text
    | none => (s.emit (.write frame)).goto (.active .transmit rx .announced)
  | .announced =>
    match s.link.flushFault with
    | some text => s.failTransmit rx .close text
    | none =>
      if s.link.held then s.suspendOnLink (.active .receive rx .announced)
      else s.goto (.active .transmit rx .closing)
  | .closing =>
    match s.link.closeFault with
    | some text => s.failTransmit rx .close text
    | none =>
      if s.link.closeHeld then s.suspendOnLink (.active .receive rx .closing)
      else s.wireClosed.goto (.active .transmit rx .done)
  | .failing e => s.record e (.active .transmit rx .done)
  | .done =>
    match rx with
    | .done => s.goto (.finishing true)
    | _ => s.suspend (.active .receive rx .done)

/-- The session is closed and the handler told why. -/
def conclude (s : Session) (resolves : Bool) : Session :=
  let s := s.settleProgress
  let reason := s.reason
  (({ s with failure := none }.emit (.closed reason)).callback (s.handler.onClosed reason)).goto
    (.concluding reason resolves)

/-- The handler has been told; whoever waits for the end learns of it. -/
def finish (s : Session) (reason : Ending) (resolves : Bool) : Session :=
  let s := s.fireClosed.vanish
  if resolves then { s with result := some reason } else s

/-- Takes the future one position further. -/
def advance (s : Session) : Session :=
  match s.position with
  | .engine | .neverRun | .over => { s with running := false }
  | .spawned => s.begin
  | .preparing => s.beginHandshake
  | .handshaking => s.resumeHandshake
  | .awaiting => s.awaitHandshake
  | .refusing e => s.record e (.finishing true)
  | .opened => s.enterActive
  | .discarding => s.discard
  | .active .receive rx tx => s.receive rx tx
  | .active .transmit rx tx => s.transmit rx tx
  | .finishing resolves => s.conclude resolves
  | .concluding reason resolves => s.finish reason resolves

/-- The single step: a deed if one is left to do, else the future goes on if it is running.  The
future takes no step in the middle of a call, because all operations of a session are bound to one
scheduler. -/
def tick (s : Session) : Session :=
  match s.doing with
  | d :: rest => { s with doing := rest }.perform d
  | [] => if s.running then s.advance else s

/-- Takes steps until nothing is in progress, within a bound. -/
def settle : Nat → Session → Session
  | 0, s => s
  | n + 1, s => if s.isQuiet then s else settle n s.tick

/-- The future is polled: it goes on where it is. -/
def resume (s : Session) : Session :=
  match s.position with
  | .engine | .neverRun | .over => s
  | _ => { s with running := true }

/-- The task takes its turn: it leaves the line, in which it may put itself again, and its future is
polled. -/
def takeTurn (steps : Nat) (s : Session) : Session :=
  { s with queued := false }.resume.settle steps

/-- Runs the executor until no task is ready, within bounds on the polls and on the steps of
each. -/
def drain (steps : Nat) : Nat → Session → Session
  | 0, s => s
  | n + 1, s => if s.queued then drain steps n (s.takeTurn steps) else s

/-! ### The session changes hands -/

/-- Hands the engine over to the executor.  A refused future is dropped, which ends the session. -/
def spawn (s : Session) : Session :=
  if s.accepting then { s with position := .spawned }.wake
  else { s with position := .finishing false, running := true }

/-- Drops the future, which ends the session if it had not ended. -/
def dropFuture (s : Session) : Session :=
  match s.position with
  | .engine | .neverRun | .over => s
  | _ => { s.releaseOperations with position := .finishing false, running := true }

/-- Drops the engine without handing it over. -/
def dropEngine (s : Session) : Session :=
  { s.unhookEngine with position := .neverRun }

end Dialogue.Session
