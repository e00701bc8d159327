/-
Signals, and everything that refers to them.

A signal is held by sources, which can fire it, and by tokens, which cannot; when the last of them
has gone, the signal is gone too, and nothing that was registered on it is connected any more.
Hooks, which stand for one registration each, and futures, which wait for the firing through a hook
of their own, keep no signal in being.

The identity of a signal is its place among all that were ever made.

Registering on a fired signal runs the listener at once.  The registry cannot run anything, so it
answers that the listener is to run now; what runs, and in which order a firing goes through its
listeners, is up to whoever asks.
-/
import Dialogue.Broadcast.Signal
import Dialogue.Table

namespace Dialogue.Broadcast

/-- What is registered on a signal. -/
inductive Listener (κ : Type)
  | callback (k : κ)
  /-- Tells the future behind a channel. -/
  | future (channel : Nat)

/-- The holder of one registration, or of none: the signal and the number of the registration. -/
abbrev Hook := Option (Nat × Nat)

/-- A future that resolves when its signal fires. -/
structure Future where
  hook : Hook
  /-- The place where it looks for the word that its signal fired. -/
  channel : Nat
  /-- It was polled and ready. -/
  finished : Bool := false

/-- What a future learns from a poll. -/
inductive Polled
  | pending
  | ready
  /-- It had been ready before. -/
  | finished
deriving DecidableEq, Repr

/-- All signals, what refers to them by number, and the channels that were told. -/
structure Registry (κ : Type) where
  signals : List (Signal (Listener κ)) := []
  sources : Table Nat := .empty
  /-- A token without a signal never fires. -/
  tokens : Table (Option Nat) := .empty
  hooks : Table Hook := .empty
  futures : Table Future := .empty
  /-- How many channels were made. -/
  channels : Nat := 0
  told : List Nat := []

namespace Registry

variable {κ : Type}

/-- The signal with an identity. -/
def signal (r : Registry κ) (i : Nat) : Signal (Listener κ) :=
  r.signals[i]?.getD .fresh

/-- Replaces a signal. -/
def setSignal (r : Registry κ) (i : Nat) (s : Signal (Listener κ)) : Registry κ :=
  { r with signals := r.signals.set i s }

/-- A signal is held by a source or a token. -/
def isHeld (r : Registry κ) (i : Nat) : Bool :=
  r.sources.values.contains i || r.tokens.values.contains (some i)

/-- Whether a signal has fired; a token without one has not. -/
def isFired (r : Registry κ) : Option Nat → Bool
  | none => false
  | some i => (r.signal i).isFired

/-- Whether a hook still holds a registration that can run. -/
def isConnected (r : Registry κ) : Hook → Bool
  | none => false
  | some (i, _) => r.isHeld i && !(r.signal i).isFired

/-- Makes a signal with one source. -/
def create (r : Registry κ) (source : Int) : Registry κ :=
  { r with signals := r.signals ++ [.fresh], sources := r.sources.put source r.signals.length }

/-- What becomes of a listener that is registered. -/
inductive Registered
  | hooked (hook : Hook)
  /-- The signal has fired: the listener runs now. -/
  | runNow
  /-- There is no signal: the listener is dropped. -/
  | dropped

/-- The hook that the registering party is given. -/
def Registered.hook : Registered → Hook
  | hooked hook => hook
  | _ => none

/-- Registers a listener. -/
def register (r : Registry κ) (i : Option Nat) (l : Listener κ) : Registered × Registry κ :=
  match i with
  | none => (.dropped, r)
  | some i =>
    match (r.signal i).register? l with
    | some (id, s) => (.hooked (some (i, id)), r.setSignal i s)
    | none => (.runNow, r)

/-- A hook lets go of its registration. -/
def unhook (r : Registry κ) : Hook → Registry κ
  | none => r
  | some (i, id) => r.setSignal i ((r.signal i).disconnect id)

/-- Stores a hook; the one it replaces lets go. -/
def storeHook (r : Registry κ) (conn : Int) (hook : Hook) : Registry κ :=
  { r with hooks := r.hooks.put conn hook }.unhook ((r.hooks.get? conn).getD none)

/-- Registers a callback and stores its hook, if it can be registered; answers whether it is to run
now instead, before an empty hook is stored. -/
def connect (r : Registry κ) (i : Option Nat) (conn : Int) (k : κ) : Bool × Registry κ :=
  match r.register i (.callback k) with
  | (.runNow, r) => (true, r)
  | (registered, r) => (false, r.storeHook conn registered.hook)

/-- Lets go of a hook's registration and keeps the hook. -/
def disconnect (r : Registry κ) (conn : Int) : Registry κ :=
  match r.hooks.get? conn with
  | none => r
  | some hook => { r with hooks := r.hooks.put conn none }.unhook hook

/-- Drops a hook. -/
def dropHook (r : Registry κ) (conn : Int) : Registry κ :=
  match r.hooks.get? conn with
  | none => r
  | some hook => { r with hooks := r.hooks.erase conn }.unhook hook

/-- Fires a signal: its listeners are to run, and it is fired before any of them does. -/
def fire (r : Registry κ) (i : Nat) : List (Listener κ) × Registry κ :=
  ((r.signal i).slots.map (·.2), r.setSignal i .fired)

/-- Tells the future behind a channel. -/
def tell (r : Registry κ) (channel : Nat) : Registry κ :=
  { r with told := channel :: r.told }

/-- Makes a future that waits for a signal, and stores it; the one it replaces lets go. -/
def createFuture (r : Registry κ) (f : Int) (i : Option Nat) : Registry κ :=
  let channel := r.channels
  let (registered, r) := { r with channels := channel + 1 }.register i (.future channel)
  let r := match registered with
    | .runNow => r.tell channel
    | _ => r
  { r with futures := r.futures.put f { hook := registered.hook, channel } }.unhook
    ((r.futures.get? f).bind (·.hook))

/-- Drops a future. -/
def dropFuture (r : Registry κ) (f : Int) : Registry κ :=
  match r.futures.get? f with
  | none => r
  | some future => { r with futures := r.futures.erase f }.unhook future.hook

/-- Polls a future.  Once it is ready it lets go of its registration. -/
def pollFuture (r : Registry κ) (f : Int) (future : Future) : Polled × Registry κ :=
  if future.finished then (.finished, r)
  else if r.told.contains future.channel then
    (.ready, Registry.unhook { r with
      futures := r.futures.put f { future with hook := none, finished := true } } future.hook)
  else (.pending, r)

end Registry

end Dialogue.Broadcast
