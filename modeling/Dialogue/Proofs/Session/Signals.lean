/-
The two signals of a session.

A session has a stop signal, on which its engine and the tokens are registered, and a closed signal,
on which its `closed` futures are.  Handles, callbacks, the future and panics all reach for them.
Still nothing is done to either but what can be done to any signal: registering, disconnecting and
firing.
-/
import Dialogue.Proofs.Broadcast.Life
import Dialogue.Proofs.Session.Resolving
import Dialogue.Proofs.Session.Settling

namespace Dialogue.Session

open Broadcast (Signal)

variable {s t : Session}

/-! ### The stop signal -/

theorem becomes_elim (signal : Signal Listener) (hook : Option Nat) :
    signal.Becomes (hook.elim signal signal.disconnect) := by
  cases hook with
  | none => exact .refl signal
  | some id => exact .disconnect signal id

theorem becomes_act (s : Session) (a : Act) : s.stopSignal.Becomes (s.act a).stopSignal := by
  cases a with
  | send message =>
    rw [act, send_eq]
    split <;> exact .refl _
  | echo =>
    rw [act, send_eq]
    split <;> exact .refl _
  | stop => exact .fires _
  | stopWith r => exact .fires _
  | panic message =>
    obtain hsame | ⟨id, hless⟩ := stopSignal_tearDown s (.raised message)
    · exact .of_eq hsame
    · rw [act, hless]
      exact .disconnect _ id
  | closed id =>
    simp only [act, createWaiter]
    split <;> split <;> exact .refl _
  | listen id acts =>
    simp only [act, listen, unhookStop_eq]
    split
    · next hook signal hreg => exact (Signal.Becomes.registers hreg).trans (becomes_elim signal _)
    · exact .refl _
  | unlisten id =>
    simp only [act, unlisten, unhookStop_eq]
    split
    · exact .refl _
    · exact becomes_elim s.stopSignal _
  | link a =>
    simp only [act, onLink, touch_eq]
    exact .refl _
  | _ => exact .refl _

theorem becomes_stopSignal_move (hs : Sound s) (m : Move) :
    s.stopSignal.Becomes (s.move m).stopSignal := by
  have hm := moves s m
  generalize s.move m = t at hm
  cases hm with
  | acts a => exact becomes_act s a
  | @does d rest hd =>
    cases d with
    | act a => exact becomes_act { s with doing := rest } a
    | engineStop =>
      rw [perform, onStop_eq]
      exact .refl _
    | heard id => exact .refl _
  | advances hd hr ha =>
    cases ha with
    | shuts hg => rw [wireClosed_eq]; exact .refl _
    | fails hf link => rw [fail_eq]; exact .refl _
    | asks hp hw => rw [passOn_eq]; exact .refl _
    | isDenied hp hw => exact absurd hw (hs.wait?_ne_none hp)
    | concludes hp => rw [conclude_eq, settleProgress_eq]; exact .refl _
    | finishes hp => rw [finish_eq, unhookEngine_eq]; exact becomes_elim s.stopSignal _
    | _ => exact .refl _
  | drops hr hp => rw [releaseOperations_eq]; exact .refl _
  | disowns hp => rw [unhookEngine_eq]; exact becomes_elim s.stopSignal _
  | _ => exact .refl _

/-! ### The closed signal -/

theorem becomes_createWaiter (s : Session) (id : Int) :
    s.closedSignal.Becomes (s.createWaiter id).closedSignal := by
  unfold createWaiter
  dsimp only
  cases hreg : s.closedSignal.register? s.channels with
  | none =>
    cases (s.waiters.get? id).bind (·.hook) with
    | none => exact .refl _
    | some old => exact .disconnect s.closedSignal old
  | some r =>
    have henrolled : s.closedSignal.Becomes r.2 := .registers hreg
    cases (s.waiters.get? id).bind (·.hook) with
    | none => exact henrolled
    | some old => exact henrolled.trans (.disconnect r.2 old)

theorem becomes_closedSignal_move (hs : Sound s) (m : Move) :
    s.closedSignal.Becomes (s.move m).closedSignal := by
  have ha := announces_move hs m
  generalize s.reportPanic? m = panic at ha
  generalize s.move m = t at ha
  cases ha with
  | keeps same => exact .of_eq same.signal
  | @joins deeds id ht =>
    rw [ht]
    exact becomes_createWaiter { s with doing := deeds } id
  | fires unfired hover signal =>
    rw [signal]
    exact .fires _
  | forgets unfired hover same => exact .of_eq same.signal

/-! ### Every run -/

/-- The signals of a session come from fresh ones by the operations of signals. -/
structure SignalsLive (s : Session) : Prop where
  stop : Signal.fresh.Becomes s.stopSignal
  closed : Signal.fresh.Becomes s.closedSignal

theorem signalsLive_after (o : Origin) (ms : List Move) : SignalsLive (o.session.after ms) := by
  induction ms using List.reverseRecOn with
  | nil =>
    -- the engine has registered by the time the session is made
    exact ⟨⟨[.register .engine], rfl⟩, .refl _⟩
  | append_singleton ms m ih =>
    have hs := sound_after o ms
    rw [after_concat]
    exact ⟨ih.stop.trans (becomes_stopSignal_move hs m),
      ih.closed.trans (becomes_closedSignal_move hs m)⟩

end Dialogue.Session
