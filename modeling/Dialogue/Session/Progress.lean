/-
How far a session has come.

A session goes through its stages in one direction, and what ended it is written down once: the
verdict, whose first entry is final.  Everybody who holds a handle reads this record; the session's
own task and the handles write it.
-/
import Dialogue.CloseReason

namespace Dialogue.Session

/-- The stages of a session, in order. -/
inductive Stage
  | notStarted
  | handshaking
  | active
  | closing
  | closed
deriving DecidableEq, Repr

/-- The name of a stage. -/
def Stage.name : Stage → String
  | notStarted => "NotStarted"
  | handshaking => "Handshaking"
  | active => "Active"
  | closing => "Closing"
  | closed => "Closed"

/-- Whether a message is being written. -/
inductive Transmission
  | idle
  | sending
deriving DecidableEq, Repr

/-- The name of a transmission state. -/
def Transmission.name : Transmission → String
  | idle => "Idle"
  | sending => "Sending"

/-- What ended a session: a request, or a failure. -/
inductive Verdict
  | cancelled
  | failed
deriving DecidableEq, Repr

/-- The means to end an operation that waits for the connection. -/
inductive Interrupt
  /-- There is no operation that could be ended. -/
  | absent
  /-- The operation can be ended, and is woken then if it listens. -/
  | ready (listening : Bool)
  /-- The operation was ended. -/
  | pulled
deriving DecidableEq, Repr

/-- The record of a session's progress. -/
structure Progress where
  stage : Stage := .notStarted
  transmission : Transmission := .idle
  verdict : Option Verdict := none
  /-- What the peer will be told if the session closes gracefully. -/
  closeReason : CloseReason
  handshake : Interrupt := .absent
  receive : Interrupt := .absent
deriving DecidableEq, Repr

/-- A message sent now would never be written, so it is dropped. -/
def Progress.isEnding (p : Progress) : Bool :=
  p.verdict.isSome || p.stage = .closing || p.stage = .closed

/-- Enters a verdict.  The first one stays. -/
def Progress.judge (p : Progress) (v : Verdict) : Progress :=
  { p with verdict := some (p.verdict.getD v) }

@[simp] theorem Progress.judge_judge (p : Progress) (v w : Verdict) :
    (p.judge v).judge w = p.judge v := rfl

@[simp] theorem Progress.verdict_judge (p : Progress) (v : Verdict) :
    (p.judge v).verdict = some (p.verdict.getD v) := rfl

/-- The settings of a session. -/
structure Settings where
  /-- Shown when a handle is printed. -/
  name : String := "session"
  /-- Given to the peer when the session is stopped without another reason. -/
  closeReason : CloseReason := .shuttingDown
deriving DecidableEq, Repr

/-- A session that has not started. -/
def Settings.progress (s : Settings) : Progress :=
  { closeReason := s.closeReason }

end Dialogue.Session
