/-
What a session does with its events.

A handler answers each event with acts: calls on a handle of the session, things that happen to the
connection, or a panic.  The same acts can be performed from outside.  A handler may answer every
message differently, which is why it is told how many came before; `Rules` are the handlers that
look at the text alone.
-/
import Dialogue.Ending
import Dialogue.Session.Link
import Dialogue.Session.Progress

namespace Dialogue.Session

/-- What can be done with a session by anyone at any time. -/
inductive Act
  | send (message : String)
  /-- Sends the message that is being handled, or the empty text if none is. -/
  | echo
  | stop
  | stopWith (reason : CloseReason)
  /-- Notes the state of the session in its journal. -/
  | note
  | panic (message : String)
  /-- Makes a future that resolves when the session is over. -/
  | closed (id : Int)
  /-- Registers a callback on the stop signal, which performs acts when the signal fires. -/
  | listen (id : Int) (acts : List Act)
  /-- Drops the hook of such a callback. -/
  | unlisten (id : Int)
  /-- Asks whether the stop signal has fired. -/
  | tokenFired
  /-- Asks for the text of a handle. -/
  | debug
  | link (act : LinkAct)

instance : Inhabited Act := ⟨.note⟩

/-- The act as performed while a message is handled. -/
def Act.about (message : String) : Act → Act
  | echo => send message
  | act => act

/-- What a session does with its events. -/
structure Handler where
  /-- The handshake succeeded. -/
  onConnected : List Act := []
  /-- A frame arrived; the number says how many arrived before it. -/
  onMessage : Nat → String → List Act := fun _ _ => []
  /-- The session failed before anything else ended it. -/
  onError : Ending → List Act := fun _ => []
  /-- The session is over. -/
  onClosed : Ending → List Act := fun _ => []

/-- What to do with messages of one text, or with all. -/
structure Rule where
  /-- The text, unless the rule is for every message. -/
  text : Option String
  acts : List Act

/-- The rule is for a message. -/
def Rule.applies (r : Rule) (message : String) : Bool :=
  match r.text with
  | none => true
  | some text => text == message

/-- A handler given by lists of acts. -/
structure Rules where
  onConnected : List Act := []
  onMessage : List Rule := []
  onError : List Act := []
  onClosed : List Act := []

/-- The handler that follows the rules: of those for a message the first decides. -/
def Rules.handler (r : Rules) : Handler where
  onConnected := r.onConnected
  onMessage _ message :=
    match r.onMessage.find? (·.applies message) with
    | none => []
    | some rule => rule.acts.map (·.about message)
  onError _ := r.onError
  onClosed _ := r.onClosed

end Dialogue.Session
