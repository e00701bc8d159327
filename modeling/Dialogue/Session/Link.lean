/-
The connection as the session sees it.

A link is the session's end of a connection with a peer.  It holds what the peer has sent and the
session has not read, and it decides how each operation of the session goes: whether it completes,
waits or fails.  All of that may change at any time from outside, through a `LinkAct`; an operation
that waits is woken then and looks again.

The link keeps no log.  What the session starts to write, and that it closed its side, the session
records itself.
-/

namespace Dialogue.Session

/-- The session's end of a connection. -/
structure Link where
  /-- The transport has a close frame. -/
  framed : Bool := true
  /-- Frames and read errors that are read next, in order. -/
  inbound : List (Except String String) := []
  /-- Frames and read errors that arrived behind them, the last one first. -/
  arrived : List (Except String String) := []
  /-- After what is inbound the stream ends. -/
  ended : Bool := false
  /-- Writes that were started do not complete. -/
  held : Bool := false
  /-- Closing does not complete. -/
  closeHeld : Bool := false
  /-- Starting a write fails. -/
  sendFault : Option String := none
  /-- A write that was started fails. -/
  flushFault : Option String := none
  /-- Closing fails. -/
  closeFault : Option String := none
  /-- The peer ends its side when the session has closed its own. -/
  hangsUp : Bool := true
  /-- How the handshake ends, once that is known. -/
  outcome : Option (Except String Unit) := some (.ok ())
  /-- An operation of the session waits here and wants to be woken. -/
  listening : Bool := false

namespace Link

/-- The frames and read errors that have not been read, in order. -/
def unread (l : Link) : List (Except String String) :=
  l.inbound ++ l.arrived.reverse

/-- A frame or a read error arrives. -/
def deliver (l : Link) (arrival : Except String String) : Link :=
  { l with arrived := arrival :: l.arrived }

/-- Reads what comes next. -/
def next? (l : Link) : Option (Except String String × Link) :=
  match l.inbound with
  | a :: rest => some (a, { l with inbound := rest })
  | [] =>
    match l.arrived.reverse with
    | a :: rest => some (a, { l with inbound := rest, arrived := [] })
    | [] => none

@[simp] theorem unread_deliver (l : Link) (arrival : Except String String) :
    (l.deliver arrival).unread = l.unread ++ [arrival] := by
  simp [unread, deliver]

/-- Reading takes the first of what has not been read. -/
theorem unread_of_next? {l l' : Link} {a : Except String String} (h : l.next? = some (a, l')) :
    l.unread = a :: l'.unread := by
  unfold next? at h
  split at h
  · next hi => cases h; simp [unread, hi]
  · next hi =>
    split at h
    · next ha => cases h; simp [unread, hi, ha]
    · cases h

theorem next?_eq_none_iff {l : Link} : l.next? = none ↔ l.unread = [] := by
  unfold next? unread
  split
  · next hi => simp [hi]
  · next hi => split <;> next ha => simp [hi, ha]

end Link

/-- Something that happens to a link from outside of the session. -/
inductive LinkAct
  | peer (frame : String)
  | peerError (error : String)
  | peerEnd
  | hold
  | release
  | holdClose
  | releaseClose
  | failSend (error : Option String)
  | failFlush (error : Option String)
  | failClose (error : Option String)
  | hangUp (b : Bool)
  | handshake (outcome : Except String Unit)

/-- What an act changes. -/
def LinkAct.apply (l : Link) : LinkAct → Link
  | peer frame => l.deliver (.ok frame)
  | peerError error => l.deliver (.error error)
  | peerEnd => { l with ended := true }
  | hold => { l with held := true }
  | release => { l with held := false }
  | holdClose => { l with closeHeld := true }
  | releaseClose => { l with closeHeld := false }
  | failSend error => { l with sendFault := error }
  | failFlush error => { l with flushFault := error }
  | failClose error => { l with closeFault := error }
  | hangUp b => { l with hangsUp := b }
  | handshake outcome => { l with outcome := some outcome }

end Dialogue.Session
