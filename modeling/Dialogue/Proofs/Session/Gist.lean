/-
What a session goes by.

Whoever holds a handle can do a lot that a session takes no notice of: futures that wait for the end
come and go, callbacks are put on the stop token, notes are written.  The gist of a session is what
remains when all of this is taken away, and the session goes by its gist.  Every step that the
future takes, and everything that is done to it, leads from one gist to one gist only.

The same is true of the acts that a session still feels when its end has been decided: of what
happens to the connection, of panics, and of what puts either on a stop token that runs it at once.
No other act changes the gist then.  So two sessions of one gist that feel the same remain of one
gist, whatever else is done to either.
-/
import Dialogue.Proofs.Session.Taming

namespace Dialogue.Session

/-! ### The gist -/

/-- An act that a session feels even when its end has been decided, or that sets such an act
going. -/
def Act.isFelt (a : Act) : Bool :=
  !a.isMeek

@[inherit_doc Act.isFelt]
def Deed.isFelt (d : Deed) : Bool :=
  !d.isMeek

/-- A handler that does only some of what it does. -/
def Handler.only (keep : Act → Bool) (h : Handler) : Handler where
  onConnected := h.onConnected.filter keep
  onMessage n message := (h.onMessage n message).filter keep
  onError e := (h.onError e).filter keep
  onClosed e := (h.onClosed e).filter keep

/-- A session without what was made of its handles, what was noted, what will not be felt of all
that is to be done, and what tore down the code that ran last. -/
def gist (s : Session) : Session :=
  { s with
    stopSignal := .fresh
    closedSignal := .fresh
    doing := s.doing.filter Deed.isFelt
    opening := s.opening.filter Act.isFelt
    handler := s.handler.only Act.isFelt
    tokens := .empty
    waiters := .empty
    channels := 0
    told := []
    log := s.log.filter fun e => !e.isNote
    heard := []
    panicked := none }

@[simp] theorem filter_map_act (acts : List Act) :
    (acts.map Deed.act).filter Deed.isFelt = (acts.filter Act.isFelt).map .act := by
  rw [List.filter_map]
  rfl

section Fields

variable (s : Session)

theorem progress_gist : s.gist.progress = s.progress := rfl

theorem outbox_gist : s.gist.outbox = s.outbox := rfl

theorem link_gist : s.gist.link = s.link := rfl

theorem position_gist : s.gist.position = s.position := rfl

theorem running_gist : s.gist.running = s.running := rfl

theorem chronicle_gist : s.gist.chronicle = s.chronicle := by
  simp [chronicle, journal, gist, List.filter_reverse]

theorem gist_gist : s.gist.gist = s.gist := by
  simp [gist, Handler.only]

theorem gist_doing (deeds : List Deed) :
    ({ s with doing := deeds } : Session).gist
      = { s.gist with doing := deeds.filter Deed.isFelt } := rfl

end Fields

/-! ### Operations -/

section Operations

variable (s : Session)

theorem gist_goto (p : Position) : (s.goto p).gist = s.gist.goto p := rfl

theorem gist_emit {e : Event} (he : e.isNote = false) : (s.emit e).gist = s.gist.emit e := by
  simp [emit, gist, he]

theorem gist_settleProgress : s.settleProgress.gist = s.gist.settleProgress := by
  rw [settleProgress_eq, settleProgress_eq]
  rfl

theorem gist_releaseOperations : s.releaseOperations.gist = s.gist.releaseOperations := by
  unfold releaseOperations
  rw [position_gist]
  split
  · exact gist_emit s rfl
  · exact gist_emit s rfl
  · rfl
  · rfl

theorem gist_vanish :
    s.vanish.gist = { s.gist with engineHook := none, position := .over, running := false } := by
  rw [vanish, unhookEngine_eq]
  rfl

theorem gist_wireClosed : s.wireClosed.gist = s.gist.wireClosed := by
  rw [wireClosed_eq, wireClosed_eq]
  simp [gist, Handler.only, Event.isNote]

theorem gist_fail (e : Ending) (recording after : Position) :
    (s.fail e recording after).gist = (s.gist.fail e recording after).gist := by
  rw [fail_eq, fail_eq]
  by_cases hv : s.progress.verdict = none <;> simp [gist, Handler.only, hv, Event.isNote]

theorem gist_tearDown (cause : Panic) : (s.tearDown cause).gist = (s.gist.tearDown cause).gist := by
  have hempty : ({ s with doing := [], panicked := some cause } : Session).gist
      = ({ s.gist with doing := [], panicked := some cause } : Session).gist := by
    simp [gist, Handler.only]
  have hsettled : ∀ x : Session,
      ({ x.releaseOperations.settleProgress with failure := none } : Session).fireClosed.gist
        = { x.gist.releaseOperations.settleProgress with failure := none } := by
    intro x
    rw [← gist_releaseOperations, ← gist_settleProgress]
    rfl
  unfold tearDown
  dsimp only
  rw [running_gist, position_gist]
  split
  · split
    · rw [gist_vanish, gist_vanish, hempty]
      rfl
    · rw [gist_vanish, gist_vanish, hsettled, hsettled, hempty]
      rfl
  · exact hempty

end Operations

/-! ### The next step of the future -/

section Steps

variable (s : Session)

theorem gist_begin : s.begin.gist = s.gist.begin.gist := by
  unfold begin
  by_cases hv : s.progress.verdict.isSome <;> simp [gist, Handler.only, hv, goto]

theorem gist_beginHandshake : s.beginHandshake.gist = s.gist.beginHandshake.gist := by
  unfold beginHandshake
  by_cases hp : s.progress.handshake = .pulled <;>
    simp [gist, Handler.only, hp, goto, emit, callback, Event.isNote]

theorem gist_resumeHandshake : s.resumeHandshake.gist = s.gist.resumeHandshake.gist := by
  unfold resumeHandshake
  by_cases hp : s.progress.handshake = .pulled <;>
    simp [gist, Handler.only, hp, goto, emit, Event.isNote]

theorem gist_awaitHandshake : s.awaitHandshake.gist = s.gist.awaitHandshake.gist := by
  unfold awaitHandshake
  rw [link_gist]
  split
  · simp [gist, Handler.only, goto]
  · exact gist_fail _ _ _ _
  · by_cases hp : s.progress.handshake = .pulled <;>
      simp [gist, Handler.only, hp, goto, emit, suspendOnLink, suspend, Event.isNote]

theorem gist_enterActive : s.enterActive.gist = s.gist.enterActive.gist := by
  unfold enterActive
  by_cases hv : s.progress.verdict.isSome <;>
    simp [gist, Handler.only, hv, goto, emit, callback, Event.isNote]

theorem gist_discard : s.discard.gist = s.gist.discard.gist := by
  unfold discard
  rw [link_gist]
  split
  · simp [gist, Handler.only, goto]
  · split
    · simp [gist, Handler.only, suspendOnLink, suspend]
    · rw [gist_goto, gist_goto, gist_wireClosed, gist_wireClosed, gist_gist]

theorem gist_receive (rx : Receiving) (tx : Transmitting) :
    (s.receive rx tx).gist = (s.gist.receive rx tx).gist := by
  unfold receive
  cases rx with
  | done => simp [gist, Handler.only, goto]
  | failing e => simp [gist, Handler.only, goto, record]
  | reading =>
    have hstage : s.gist.stage = s.stage := rfl
    dsimp only
    rw [progress_gist, link_gist, hstage]
    split
    · simp [gist, Handler.only, goto]
    · split
      · simp [gist, Handler.only, emit, callback, Event.isNote]
      · exact gist_fail _ _ _ _
      · split
        · split
          · exact gist_fail _ _ _ _
          · simp [gist, Handler.only, goto]
        · simp [gist, Handler.only, goto]

theorem gist_beginClose (rx : Receiving) :
    (s.beginClose rx).gist = (s.gist.beginClose rx).gist := by
  rw [beginClose_eq, beginClose_eq, gist_goto, gist_goto, gist_gist]
  rfl

theorem gist_transmit (rx : Receiving) (tx : Transmitting) :
    (s.transmit rx tx).gist = (s.gist.transmit rx tx).gist := by
  unfold transmit
  cases tx with
  | asking =>
    dsimp only
    rw [outbox_gist]
    split
    · rw [passOn_eq, passOn_eq]
      simp [gist, Handler.only, goto]
    · exact gist_tearDown s _
  | waiting t =>
    dsimp only
    rw [outbox_gist]
    split
    · simp [gist, Handler.only, goto, setTransmission]
    · exact gist_beginClose _ _
    · exact gist_beginClose _ _
    · simp [gist, Handler.only, suspend]
  | writing message =>
    dsimp only
    rw [link_gist]
    split
    · exact gist_fail _ _ _ _
    · simp [gist, Handler.only, emit, goto, Event.isNote]
  | flushing =>
    dsimp only
    rw [link_gist]
    split
    · exact gist_fail _ _ _ _
    · split
      · simp [gist, Handler.only, suspendOnLink, suspend]
      · simp [gist, Handler.only, goto, setTransmission]
  | announcing frame =>
    dsimp only
    rw [link_gist]
    split
    · exact gist_fail _ _ _ _
    · simp [gist, Handler.only, emit, goto, Event.isNote]
  | announced =>
    dsimp only
    rw [link_gist]
    split
    · exact gist_fail _ _ _ _
    · split
      · simp [gist, Handler.only, suspendOnLink, suspend]
      · simp [gist, Handler.only, goto]
  | closing =>
    dsimp only
    rw [link_gist]
    split
    · exact gist_fail _ _ _ _
    · split
      · simp [gist, Handler.only, suspendOnLink, suspend]
      · rw [gist_goto, gist_goto, gist_wireClosed, gist_wireClosed, gist_gist]
  | failing e => simp [gist, Handler.only, goto, record]
  | done =>
    dsimp only
    split
    · simp [gist, Handler.only, goto]
    · simp [gist, Handler.only, suspend]

theorem gist_conclude (resolves : Bool) :
    (s.conclude resolves).gist = (s.gist.conclude resolves).gist := by
  have hreason : s.gist.reason = s.reason := rfl
  rw [conclude_eq, conclude_eq, settleProgress_eq, settleProgress_eq, hreason]
  simp [gist, Handler.only, Event.isNote]

theorem gist_finish (reason : Ending) (resolves : Bool) :
    (s.finish reason resolves).gist = (s.gist.finish reason resolves).gist := by
  rw [finish_eq, finish_eq, unhookEngine_eq, unhookEngine_eq]
  simp [gist, Handler.only, fireClosed]

/-- **The future goes on by the gist of its session.** -/
theorem gist_advance : s.advance.gist = s.gist.advance.gist := by
  unfold advance
  rw [position_gist]
  split
  · simp [gist, Handler.only]
  · simp [gist, Handler.only]
  · simp [gist, Handler.only]
  · exact gist_begin s
  · exact gist_beginHandshake s
  · exact gist_resumeHandshake s
  · exact gist_awaitHandshake s
  · simp [gist, Handler.only, goto, record]
  · exact gist_enterActive s
  · exact gist_discard s
  · exact gist_receive s _ _
  · exact gist_transmit s _ _
  · exact gist_conclude s _
  · exact gist_finish s _ _

end Steps

/-! ### What is done to a session -/

theorem gist_unhookEngine (s : Session) : s.unhookEngine.gist = s.gist.unhookEngine := by
  rw [unhookEngine_eq, unhookEngine_eq]
  show { s.gist with engineHook := none } = { s.gist with
    stopSignal := s.engineHook.elim .fresh (Broadcast.Signal.disconnect .fresh)
    engineHook := none }
  cases s.engineHook <;> rfl

theorem gist_resume (s : Session) : s.resume.gist = s.gist.resume := by
  unfold resume
  rw [position_gist]
  split <;> rfl

theorem gist_dropFuture (s : Session) : s.dropFuture.gist = s.gist.dropFuture := by
  unfold dropFuture
  rw [position_gist]
  split
  · rfl
  · rfl
  · rfl
  · rw [← gist_releaseOperations]
    rfl

/-- **Whoever owns the future or its engine acts on the gist of the session.** -/
theorem gist_move (s : Session) {m : Move} (htick : m ≠ .tick) (hact : ∀ a, m ≠ .act a) :
    (s.move m).gist = s.gist.move m := by
  cases m with
  | tick => exact absurd rfl htick
  | act a => exact absurd rfl (hact a)
  | serve =>
    show (ite _ _ _ : Session).gist = _
    rw [apply_ite gist]
    rfl
  | spawn =>
    show (ite _ (ite _ _ _) _ : Session).gist = _
    rw [apply_ite gist, apply_ite gist]
    rfl
  | turn =>
    show (ite _ _ _ : Session).gist = _
    rw [apply_ite gist, gist_resume]
    rfl
  | poll =>
    show (ite _ _ _ : Session).gist = _
    rw [apply_ite gist, gist_resume]
    rfl
  | drop =>
    show (ite _ _ _ : Session).gist = _
    rw [apply_ite gist, gist_dropFuture]
    rfl
  | dropEngine =>
    show (ite _ { s.unhookEngine with position := .neverRun } _ : Session).gist = _
    rw [apply_ite gist]
    show ite _ { s.unhookEngine.gist with position := .neverRun } _ = _
    rw [gist_unhookEngine]
    rfl
  | shutdown => rfl

/-- **What is done to the connection, and a panic, is felt by the gist.** -/
theorem gist_act_of_loud (s : Session) {a : Act} (loud : a.isLink = true ∨ a.raised? ≠ none) :
    (s.act a).gist = (s.gist.act a).gist := by
  cases a with
  | panic message => exact gist_tearDown s _
  | link change =>
    simp only [act, onLink, touch_eq]
    simp [gist, Handler.only]
  | _ => exact absurd loud (by simp [Act.isLink, Act.raised?])

/-- On a signal that has fired, a callback is run at once, as far as it is felt. -/
theorem gist_listen_of_fired {s : Session} (fired : s.stopSignal.isFired = true) (id : Int)
    (acts : List Act) :
    (s.listen id acts).gist = { s.gist with
      doing := (Listener.token id acts).deeds.filter Deed.isFelt ++ s.gist.doing } := by
  rw [listen, (Broadcast.Signal.register?_eq_none_iff _ _).mpr fired]
  simp only [gist, List.filter_append]

end Dialogue.Session
