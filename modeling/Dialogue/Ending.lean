/-
How a session ends, and the three ways a single operation is refused.

A session has exactly one ending, and it is one of three: somebody asked for it, the peer ended the
stream, or the transport failed in one of four phases.  Only the first is graceful.
-/

namespace Dialogue

/-- The stage of a session at which a transport failure was observed. -/
inductive Phase
  | handshake
  | read
  | write
  | close
deriving DecidableEq, Repr

/-- The word for a phase in messages. -/
def Phase.word : Phase → String
  | .handshake => "handshake"
  | .read => "read"
  | .write => "write"
  | .close => "close"

/-- Why a session reached its end. -/
inductive Ending
  /-- Somebody asked the session to stop, or its future was dropped. -/
  | cancelled
  /-- The peer ended the stream while the session was active. -/
  | peerClosed
  /-- The transport failed, in a phase and with a cause of its own. -/
  | transport (phase : Phase) (source : String)
deriving DecidableEq, Repr

namespace Ending

/-- An ending is graceful when somebody asked for it. -/
def isGraceful : Ending → Bool
  | cancelled => true
  | _ => false

/-- The phase of a transport failure. -/
def phase? : Ending → Option Phase
  | transport phase _ => some phase
  | _ => none

/-- The transport's own words for its failure. -/
def source? : Ending → Option String
  | transport _ source => some source
  | _ => none

/-- The text of an ending. -/
def message : Ending → String
  | cancelled => "session cancelled"
  | peerClosed => "stream closed by peer"
  | transport phase source => "transport failure during " ++ phase.word ++ ": " ++ source

/-- An ending has a phase exactly when it has a cause, and then it is not graceful. -/
theorem phase?_isSome_eq (e : Ending) : e.phase?.isSome = e.source?.isSome := by
  cases e <;> rfl

end Ending

/-- Why an operation answers with an error instead of a value. -/
inductive Refusal
  /-- The wait ended because of a stop rather than a value. -/
  | cancelled
  /-- A second wait was asked for while one is outstanding. -/
  | misuse
  /-- A continuation was called that holds nothing. -/
  | noContinuation
deriving DecidableEq, Repr

/-- The text of a refusal. -/
def Refusal.message : Refusal → String
  | .cancelled => "operation cancelled"
  | .misuse => "a pop is already outstanding on this queue"
  | .noContinuation => "continuation is empty"

end Dialogue
