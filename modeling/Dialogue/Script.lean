/-
Scripts, and what becomes of a step that panics.

A script is a list of steps performed one after another on one state.  A step answers with a value
and may emit events; a callback may carry a script of its own, which runs inside the step that runs
the callback.  A panic inside any of them tears down everything up to the outermost step: what the
nested steps did to the state stays done, the events they would have reported are lost, and the
events that the outermost step had emitted by then are kept.

`Play` is the type of such a step.  It is a state transformer that either answers or is interrupted,
and in both cases hands back the state, because an interrupted step has already done what it did.
-/
import Dialogue.Table

namespace Dialogue

/-- Why code in the middle of a step was torn down. -/
inductive Panic
  /-- A script asked for it. -/
  | raised (message : String)
  /-- A pop was polled that had already given its result. -/
  | popFinished
  /-- The executor takes no more tasks. -/
  | spawnRefused
  /-- A posted job held nothing to call. -/
  | emptyJob
  /-- Somebody else waits on a session's outbox. -/
  | outboxTaken
deriving DecidableEq, Repr

/-- The text of a panic. -/
def Panic.message : Panic → String
  | .raised message => message
  | .popFinished => "`Pop` polled after completion"
  | .spawnRefused => "spawn failed"
  | .emptyJob => "posted an empty continuation: NoContinuation"
  | .outboxTaken => "the transmit region is the only consumer of the outbox: MisuseError"

/-- Why a step did not come to an answer. -/
inductive Interruption
  | panic (cause : Panic)
  /-- The bound on nested calls was used up: the script calls itself without end. -/
  | outOfFuel
deriving DecidableEq, Repr

/-- What a nested step leaves behind: its answer and its events, in order. -/
structure Report (ν ε : Type) where
  answer : ν
  events : List ε

/-- The state a script works on, and the events emitted by the step in progress. -/
structure Scene (σ ε : Type) where
  state : σ
  events : List ε := []

/-- A step of a script with state `σ` and events `ε`: it answers, or it is interrupted. -/
abbrev Play (σ ε α : Type) : Type := ExceptT Interruption (StateM (Scene σ ε)) α

namespace Play

variable {σ ε ν ω α β : Type}

/-- Runs a step from a scene. -/
def start (m : Play σ ε α) (s : Scene σ ε) : Except Interruption α × Scene σ ε :=
  StateT.run (ExceptT.run m) s

/-- Appends an event to those of the step in progress. -/
def emit (e : ε) : Play σ ε Unit :=
  modify fun s => { s with events := s.events ++ [e] }

/-- Reads something off the state. -/
def look (f : σ → α) : Play σ ε α :=
  return f (← get).state

/-- Changes the state. -/
def change (f : σ → σ) : Play σ ε Unit :=
  modify fun s => { s with state := f s.state }

/-- Performs an operation that answers and changes the state. -/
def operate (f : σ → α × σ) : Play σ ε α :=
  modifyGet fun s => let (a, state) := f s.state; (a, { s with state })

/-- Tears the step down. -/
def panic (cause : Panic) : Play σ ε α :=
  throw (.panic cause)

/-- Runs a step and then, answered or interrupted, changes the state. -/
def ensure (m : Play σ ε α) (f : σ → σ) : Play σ ε α :=
  fun s => let (r, s') := m.start s; (r, { s' with state := f s'.state })

/-- Runs a step whose events are not those of the step in progress. -/
def aside (m : Play σ ε α) : Play σ ε α :=
  fun s => let (r, s') := m.start { s with events := [] }; (r, { s' with events := s.events })

/-- Runs a step and then, answered or interrupted, rearranges its events. -/
def arranged (f : List ε → List ε) (m : Play σ ε α) : Play σ ε α :=
  fun s => let (r, s') := m.start s; (r, { s' with events := f s'.events })

/-- Runs a step to its report. -/
def report (m : Play σ ε ν) : Play σ ε (Report ν ε) :=
  aside do
    let answer ← m
    return ⟨answer, (← get).events⟩

/-- Runs nested steps in order, each to its report. -/
def inside {Step : Type} (perform : Step → Play σ ε ν) (steps : List Step) :
    Play σ ε (List (Report ν ε)) :=
  steps.mapM fun s => report (perform s)

/-- Repeats an attempt until it finds nothing to do, and counts the times it did something; the
bound is on the number of attempts. -/
def repeated (attempt : Play σ ε Bool) : Nat → Play σ ε Nat
  | 0 => throw .outOfFuel
  | n + 1 => do
    if ← attempt then
      return (← repeated attempt n) + 1
    else
      return 0

/-! ### What each operation does to a scene -/

@[simp] theorem start_pure (a : α) (s : Scene σ ε) :
    (pure a : Play σ ε α).start s = (.ok a, s) := rfl

theorem start_bind (m : Play σ ε α) (f : α → Play σ ε β) (s : Scene σ ε) :
    (m >>= f).start s =
      match m.start s with
      | (.ok a, s') => (f a).start s'
      | (.error e, s') => (.error e, s') := by
  change StateT.run (ExceptT.run (ExceptT.bind m f)) s = _
  unfold start ExceptT.bind ExceptT.bindCont
  simp only [ExceptT.run, ExceptT.mk, StateT.run, bind, StateT.bind]
  rcases m s with ⟨r, s'⟩
  cases r <;> rfl

@[simp] theorem start_throw (e : Interruption) (s : Scene σ ε) :
    (throw e : Play σ ε α).start s = (.error e, s) := rfl

@[simp] theorem start_emit (e : ε) (s : Scene σ ε) :
    (emit e : Play σ ε Unit).start s = (.ok (), { s with events := s.events ++ [e] }) := rfl

@[simp] theorem start_look (f : σ → α) (s : Scene σ ε) :
    (look f : Play σ ε α).start s = (.ok (f s.state), s) := rfl

@[simp] theorem start_change (f : σ → σ) (s : Scene σ ε) :
    (change f : Play σ ε Unit).start s = (.ok (), { s with state := f s.state }) := rfl

@[simp] theorem start_operate (f : σ → α × σ) (s : Scene σ ε) :
    (operate f : Play σ ε α).start s =
      (.ok (f s.state).1, { s with state := (f s.state).2 }) := rfl

@[simp] theorem start_ensure (m : Play σ ε α) (f : σ → σ) (s : Scene σ ε) :
    (ensure m f).start s =
      ((m.start s).1, { (m.start s).2 with state := f (m.start s).2.state }) := rfl

@[simp] theorem start_aside (m : Play σ ε α) (s : Scene σ ε) :
    (aside m).start s =
      ((m.start { s with events := [] }).1,
        { (m.start { s with events := [] }).2 with events := s.events }) := rfl

end Play

/-- What an outermost step shows: its answer or the panic that tore it down, its events, and a view
of the state after it. -/
structure Line (ν ε ω : Type) where
  answer : Except Interruption ν
  events : List ε
  shown : ω

/-- Performs a script from a state.  The view of a line compares the state before and after it. -/
def Play.script {Step σ ε ν ω : Type} (perform : Step → Play σ ε ν)
    (view : σ → σ → ω) : σ → List Step → List (Line ν ε ω)
  | _, [] => []
  | before, s :: steps =>
    let (answer, scene) := (perform s).start ⟨before, []⟩
    ⟨answer, scene.events, view before scene.state⟩ :: script perform view scene.state steps

end Dialogue
