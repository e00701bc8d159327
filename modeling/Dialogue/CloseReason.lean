/-
Why a session closes, in the two words that travel to the peer.

A close reason is a status code of the closing handshake and a text.  A transport that has a close
frame puts both into it unchanged; the scripted connection, whose messages are texts, writes them
out in one line.
-/

namespace Dialogue

/-- The code and text sent to the peer when a session closes gracefully. -/
structure CloseReason where
  code : UInt16
  text : String
deriving DecidableEq, Repr

namespace CloseReason

/-- The purpose of the connection is fulfilled. -/
def normal (text : String) : CloseReason := ⟨1000, text⟩

/-- The endpoint goes away: it shuts down, or the session's time is up. -/
def goingAway (text : String) : CloseReason := ⟨1001, text⟩

/-- The reason a session gives when nobody chose another. -/
def shuttingDown : CloseReason := goingAway "shutting down"

instance : Inhabited CloseReason := ⟨shuttingDown⟩

/-- The reason given for a session whose deadline passed. -/
def timedOut : CloseReason := goingAway "session timed out"

/-- The close frame of a WebSocket: status code and reason text. -/
structure Frame where
  status : UInt16
  reason : String
deriving DecidableEq, Repr

/-- The close frame carries the code and the text as they are. -/
def frame (r : CloseReason) : Frame := ⟨r.code, r.text⟩

/-- The close frame of a connection whose messages are texts. -/
def announcement (r : CloseReason) : String :=
  "close " ++ toString r.code.toNat ++ " " ++ r.text

/-- Nothing of a reason is lost in its close frame. -/
theorem frame_injective {r s : CloseReason} (h : r.frame = s.frame) : r = s := by
  cases r; cases s; simpa [frame] using h

end CloseReason

end Dialogue
