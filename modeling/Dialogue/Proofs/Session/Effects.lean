/-
What the small operations write, each in one equation.

The operations that wake the task, interrupt the reading of frames or stop the outbox are written
with matches, and most of a session stays as it was.  Here each becomes one record update without a
match, so that every field of the result can be read off it.  `Aside` is for what does not concern
the course of a session at all: most acts are of that kind.
-/
import Dialogue.Proofs.Session.Run

namespace Dialogue.Session

open Handoff (Notice)

/-! ### Interrupts -/

/-- There is an operation that could still be ended. -/
def Interrupt.isReady : Interrupt → Bool
  | ready _ => true
  | _ => false

/-- There is an operation, and it listens. -/
def Interrupt.listens : Interrupt → Bool
  | ready listening => listening
  | _ => false

/-- Ends the operation, if there is one. -/
def Interrupt.pull : Interrupt → Interrupt
  | ready _ => pulled
  | i => i

@[simp] theorem Interrupt.isReady_pull (i : Interrupt) : i.pull.isReady = false := by
  cases i <;> rfl

@[simp] theorem Interrupt.pull_eq_absent_iff {i : Interrupt} :
    i.pull = .absent ↔ i = .absent := by
  cases i <;> simp [pull]

@[simp] theorem Interrupt.isReady_ready (b : Bool) : (Interrupt.ready b).isReady = true := rfl

@[simp] theorem Interrupt.isReady_absent : Interrupt.absent.isReady = false := rfl

@[simp] theorem Interrupt.isReady_pulled : Interrupt.pulled.isReady = false := rfl

/-! ### Equations -/

/-- Whether a notice wakes the task. -/
def wakes : Option (Notice Unit) → Bool
  | some (.wake _) => true
  | _ => false

theorem wakeIf_eq (s : Session) (b : Bool) : s.wakeIf b = { s with queued := s.queued || b } := by
  cases b <;> simp [wakeIf, wake]

theorem passOn_eq (s : Session) (n : Option (Notice Unit)) :
    s.passOn n = { s with queued := s.queued || wakes n } := by
  unfold passOn wakes
  split <;> simp_all [wake]

theorem touch_eq (s : Session) :
    s.touch = { s with
      link := { s.link with listening := false }
      queued := s.queued || s.link.listening } := by
  rw [touch, wakeIf_eq]

theorem stopOutbox_eq (s : Session) :
    s.stopOutbox = { s with
      outbox := s.outbox.stop.2
      queued := s.queued || wakes s.outbox.stop.1 } :=
  passOn_eq _ _

theorem interruptReceive_eq (s : Session) :
    s.interruptReceive = { s with
      progress := { s.progress with receive := s.progress.receive.pull }
      queued := s.queued || s.progress.receive.listens } := by
  unfold interruptReceive
  cases h : s.progress.receive <;> simp [wakeIf_eq, Interrupt.pull, Interrupt.listens, ← h]

theorem interruptHandshake_eq (s : Session) :
    s.interruptHandshake = { s with
      progress := { s.progress with handshake := s.progress.handshake.pull }
      queued := s.queued || s.progress.handshake.listens } := by
  unfold interruptHandshake
  cases h : s.progress.handshake <;> simp [wakeIf_eq, Interrupt.pull, Interrupt.listens, ← h]

theorem unhookEngine_eq (s : Session) :
    s.unhookEngine = { s with
      stopSignal := s.engineHook.elim s.stopSignal s.stopSignal.disconnect
      engineHook := none } := by
  unfold unhookEngine
  split
  · next h => cases s; cases h; rfl
  · next h => rw [h]; rfl

theorem unhookStop_eq (s : Session) (hook : Option Nat) :
    s.unhookStop hook = { s with
      stopSignal := hook.elim s.stopSignal s.stopSignal.disconnect } := by
  cases hook <;> rfl

theorem chooseReason_eq (s : Session) (r : CloseReason) :
    s.chooseReason r = { s with
      progress := { s.progress with
        closeReason := if s.progress.verdict.isNone then r else s.progress.closeReason } } := by
  unfold chooseReason
  split <;> rfl

/-- A message sent is pushed onto the outbox, unless the session is ending. -/
theorem send_eq (s : Session) (message : String) :
    s.send message =
      if s.progress.isEnding then s
      else { s with
        outbox := (s.outbox.push message).2
        queued := s.queued || wakes (s.outbox.push message).1 } := by
  unfold send
  split
  · rfl
  · exact passOn_eq _ _

/-- What the future leaves of its outbox when it goes. -/
def releasedOutbox (s : Session) : Handoff.Queue String Empty Unit :=
  match s.position with
  | .active _ _ (.waiting t) => s.outbox.withdraw t
  | _ => s.outbox

/-- What the future writes into the journal when it goes. -/
def lastWords (s : Session) : List Event :=
  match s.position with
  | .handshaking | .awaiting => [.abandoned]
  | _ => []

theorem releaseOperations_eq (s : Session) :
    s.releaseOperations = { s with
      outbox := s.releasedOutbox
      log := s.lastWords ++ s.log } := by
  unfold releaseOperations releasedOutbox lastWords
  split <;> simp_all [emit]

theorem wireClosed_eq (s : Session) :
    s.wireClosed = { s with
      log := .wireClosed :: s.log
      link := { s.link with
        ended := s.link.ended || s.link.hangsUp
        listening := s.link.listening && !s.link.hangsUp }
      queued := s.queued || (s.link.hangsUp && s.link.listening) } := by
  unfold wireClosed emit
  cases h : s.link.hangsUp with
  | true => simp [touch_eq, h]
  | false =>
    simp only [h, Bool.false_eq_true, if_false, Bool.or_false, Bool.not_false, Bool.and_true,
      Bool.false_and]
    rw [← h]

/-! ### What the journal says -/

section Journal

variable {β : Type} (pick : Event → Option β) {s t : Session}

theorem filterMap_journal_of_log (h : t.log = s.log) :
    t.journal.filterMap pick = s.journal.filterMap pick := by
  rw [journal, journal, h]

/-- What is written last is said last, if it says anything. -/
theorem filterMap_journal_of_cons {e : Event} (h : t.log = e :: s.log) :
    t.journal.filterMap pick = s.journal.filterMap pick ++ (pick e).toList := by
  rw [journal, journal, h, List.reverse_cons, List.filterMap_append]
  cases he : pick e <;> simp [he]

end Journal

/-- Somebody noted the state of the session. -/
def Event.isNote : Event → Bool
  | note _ _ _ => true
  | _ => false

/-- What the session did, in order: the journal without what others noted in it. -/
def chronicle (s : Session) : List Event :=
  s.journal.filter fun e => !e.isNote

theorem chronicle_of_log {s t : Session} (h : t.log = s.log) : t.chronicle = s.chronicle := by
  rw [chronicle, chronicle, journal, journal, h]

theorem chronicle_of_cons {s t : Session} {e : Event} (h : t.log = e :: s.log)
    (he : e.isNote = false) : t.chronicle = s.chronicle ++ [e] := by
  rw [chronicle, chronicle, journal, journal, h, List.reverse_cons, List.filter_append,
    List.filter_cons_of_pos (by rw [he]; rfl), List.filter_nil]

theorem chronicle_of_note {s t : Session} {e : Event} (h : t.log = e :: s.log)
    (he : e.isNote = true) : t.chronicle = s.chronicle := by
  rw [chronicle, chronicle, journal, journal, h, List.reverse_cons, List.filter_append,
    List.filter_cons_of_neg (by simp [he]), List.filter_nil, List.append_nil]

/-- What the future writes when it goes is all that is said then. -/
theorem chronicle_of_lastWords {s t : Session} (h : t.log = s.lastWords ++ s.log) :
    t.chronicle = s.chronicle ++ s.lastWords := by
  rw [chronicle, chronicle, journal, journal, h]
  unfold lastWords
  split <;> simp [Event.isNote]

/-! ### The engine learns of a stop -/

/-- Where a stop leads. -/
def Stage.stopped : Stage → Stage
  | active => closing
  | stage => stage

theorem progress_onStop (s : Session) :
    s.onStop.progress = { s.progress.judge .cancelled with
      stage := s.stage.stopped
      handshake := if s.stage = .handshaking then s.progress.handshake.pull
        else s.progress.handshake } := by
  unfold onStop
  cases h : s.progress.stage <;>
    simp [stage, h, Stage.stopped, interruptHandshake_eq, stopOutbox_eq, Progress.judge]

theorem outbox_onStop (s : Session) :
    s.onStop.outbox = if s.stage = .active then s.outbox.stop.2 else s.outbox := by
  unfold onStop
  cases h : s.progress.stage <;>
    simp [stage, h, interruptHandshake_eq, stopOutbox_eq, Progress.judge]

/-- Beyond progress and outbox a stop changes the line of the executor only. -/
theorem onStop_eq (s : Session) :
    s.onStop = { s with
      progress := s.onStop.progress
      outbox := s.onStop.outbox
      queued := s.onStop.queued } := by
  unfold onStop
  cases h : s.progress.stage <;>
    simp [stage, h, interruptHandshake_eq, stopOutbox_eq, Progress.judge]

/-! ### Failing and ending -/

/-- A failure closes the session.  Only the first is reported to the handler. -/
theorem fail_eq (s : Session) (e : Ending) (recording after : Position) :
    s.fail e recording after = { s with
      progress := { s.progress.judge .failed with
        stage := .closed
        receive := s.progress.receive.pull }
      outbox := s.outbox.stop.2
      queued := s.queued || s.progress.receive.listens || wakes s.outbox.stop.1
      log := if s.progress.verdict = none then .error e :: s.log else s.log
      doing := if s.progress.verdict = none then (s.handler.onError e).map .act ++ s.doing
        else s.doing
      position := if s.progress.verdict = none then recording else after } := by
  unfold fail
  cases h : s.progress.verdict <;>
    simp [h, interruptReceive_eq, stopOutbox_eq, emit, callback, goto, Progress.judge]

theorem settleProgress_eq (s : Session) :
    s.settleProgress = { s with
      progress := { s.progress.judge .cancelled with
        stage := .closed
        transmission := .idle
        handshake := .absent
        receive := .absent }
      outbox := s.outbox.stop.2
      queued := s.queued || wakes s.outbox.stop.1 } := by
  rw [settleProgress, stopOutbox_eq]

theorem reason_settleProgress (s : Session) : s.settleProgress.reason = s.reason := by
  rw [settleProgress_eq]
  unfold reason
  cases h : s.progress.verdict <;> simp [h]

theorem conclude_eq (s : Session) (resolves : Bool) :
    s.conclude resolves = { s.settleProgress with
      failure := none
      log := .closed s.reason :: s.log
      doing := (s.handler.onClosed s.reason).map .act ++ s.doing
      position := .concluding s.reason resolves } := by
  have hr := reason_settleProgress s
  unfold conclude
  dsimp only
  rw [hr, settleProgress_eq]
  rfl

theorem finish_eq (s : Session) (reason : Ending) (resolves : Bool) :
    s.finish reason resolves = { s.fireClosed.unhookEngine with
      position := .over
      running := false
      result := if resolves then some reason else s.result } := by
  unfold finish vanish
  split
  · rfl
  · rw [unhookEngine_eq]
    rfl

/-- A panic outside of the future ends what callbacks had still to do; inside, it ends the
future. -/
theorem tearDown_of_not_running {s : Session} (h : s.running = false) (cause : Panic) :
    s.tearDown cause = { s with doing := [], panicked := some cause } := by
  simp [tearDown, h]

/-- What a session torn down inside its future looks like. -/
structure TornDown (s t : Session) (cause : Panic) : Prop where
  position : t.position = .over
  running : t.running = false
  panicked : t.panicked = some cause
  doing : t.doing = []
  result : t.result = s.result
  log : t.log = s.log ∨ t.log = .abandoned :: s.log
  progress : t.progress = s.progress ∧ (∃ r b, s.position = .concluding r b) ∨
    t.progress = s.settleProgress.progress ∧ ∀ r b, s.position ≠ .concluding r b
  outbox : t.outbox = s.outbox ∧ (∃ r b, s.position = .concluding r b) ∨
    t.outbox = s.releasedOutbox.stop.2 ∧ ∀ r b, s.position ≠ .concluding r b

theorem tearDown_of_running {s : Session} (h : s.running = true) (cause : Panic) :
    TornDown s (s.tearDown cause) cause := by
  unfold tearDown
  simp only [h, if_true]
  split
  · next r b hp =>
    simp only [vanish, unhookEngine_eq]
    exact ⟨rfl, rfl, rfl, rfl, rfl, .inl rfl, .inl ⟨rfl, r, b, hp⟩,
      .inl ⟨rfl, r, b, hp⟩⟩
  · next hp =>
    simp only [vanish, unhookEngine_eq, fireClosed, releaseOperations_eq, settleProgress_eq]
    constructor
    · rfl
    · rfl
    · rfl
    · rfl
    · rfl
    · simp only [lastWords]
      split
      · exact .inr rfl
      · exact .inr rfl
      · exact .inl rfl
    · exact .inr ⟨by rw [settleProgress_eq], hp⟩
    · exact .inr ⟨rfl, hp⟩

/-- A panic inside the future writes what the future writes whenever it goes. -/
theorem log_tearDown {s : Session} (h : s.running = true) (cause : Panic) :
    (s.tearDown cause).log = s.lastWords ++ s.log := by
  unfold tearDown
  simp only [h, if_true]
  split
  · next r b hp =>
    have hwords : s.lastWords = [] := by rw [lastWords, hp]
    rw [vanish, unhookEngine_eq, hwords]
    rfl
  · rw [vanish, unhookEngine_eq, releaseOperations_eq, settleProgress_eq]
    rfl

/-! ### What does not concern the course of a session -/

/-- The course of the session is the same: what may differ is the connection, the line of the
executor, what is left to do, and what was made of the handles. -/
structure Aside (s t : Session) : Prop where
  progress : ∃ r, t.progress = { s.progress with closeReason := r }
  outbox : t.outbox = s.outbox
  failure : t.failure = s.failure
  position : t.position = s.position
  running : t.running = s.running
  /-- Only notes were written. -/
  log : t.log = s.log ∨
    ∃ stage transmission closed, t.log = .note stage transmission closed :: s.log
  result : t.result = s.result
  panicked : t.panicked = s.panicked

theorem Aside.refl (s : Session) : Aside s s :=
  ⟨⟨_, rfl⟩, rfl, rfl, rfl, rfl, .inl rfl, rfl, rfl⟩

theorem Aside.of_eq {s t : Session} (progress : t.progress = s.progress)
    (outbox : t.outbox = s.outbox) (failure : t.failure = s.failure)
    (position : t.position = s.position) (running : t.running = s.running) (log : t.log = s.log)
    (result : t.result = s.result) (panicked : t.panicked = s.panicked) : Aside s t :=
  ⟨⟨_, by rw [progress]⟩, outbox, failure, position, running, .inl log, result, panicked⟩

theorem Aside.chronicle {s t : Session} (h : Aside s t) : t.chronicle = s.chronicle := by
  obtain hl | ⟨stage, x, b, hl⟩ := h.log
  · exact chronicle_of_log hl
  · exact chronicle_of_note hl rfl

theorem aside_doing (s : Session) (deeds : List Deed) : Aside s { s with doing := deeds } :=
  .of_eq rfl rfl rfl rfl rfl rfl rfl rfl

theorem aside_fireStop (s : Session) : Aside s s.fireStop :=
  .of_eq rfl rfl rfl rfl rfl rfl rfl rfl

theorem aside_stopWith (s : Session) (r : CloseReason) : Aside s (s.chooseReason r).fireStop := by
  rw [chooseReason_eq]
  exact ⟨⟨_, rfl⟩, rfl, rfl, rfl, rfl, .inl rfl, rfl, rfl⟩

theorem aside_createWaiter (s : Session) (id : Int) : Aside s (s.createWaiter id) := by
  unfold createWaiter
  dsimp only
  split <;> split <;> exact .of_eq rfl rfl rfl rfl rfl rfl rfl rfl

theorem aside_listen (s : Session) (id : Int) (acts : List Act) : Aside s (s.listen id acts) := by
  unfold listen
  simp only [unhookStop_eq]
  split <;> exact .of_eq rfl rfl rfl rfl rfl rfl rfl rfl

theorem aside_unlisten (s : Session) (id : Int) : Aside s (s.unlisten id) := by
  unfold unlisten
  simp only [unhookStop_eq]
  split <;> exact .of_eq rfl rfl rfl rfl rfl rfl rfl rfl

theorem aside_onLink (s : Session) (a : LinkAct) : Aside s (s.onLink a) := by
  rw [onLink, touch_eq]
  exact .of_eq rfl rfl rfl rfl rfl rfl rfl rfl

/-- The message that an act sends. -/
def Act.sent? : Act → Option String
  | send message => some message
  | echo => some ""
  | _ => none

/-- The panic that an act is. -/
def Act.raised? : Act → Option String
  | panic message => some message
  | _ => none

theorem Act.eq_panic_of_raised {a : Act} (h : a.raised? ≠ none) :
    ∃ message, a = .panic message := by
  cases a with
  | panic message => exact ⟨message, rfl⟩
  | _ => exact absurd rfl h

/-- An act sends a message, or it panics, or it does not concern the course of the session; a stop
is of the last kind, because the engine learns of it by a deed of its own. -/
theorem act_cases (s : Session) (a : Act) :
    (∃ message, a.sent? = some message ∧ s.act a = s.send message) ∨
      (∃ message, a = .panic message ∧ s.act a = s.tearDown (.raised message)) ∨
      (a.sent? = none ∧ Aside s (s.act a)) := by
  cases a with
  | send message => exact .inl ⟨message, rfl, rfl⟩
  | echo => exact .inl ⟨"", rfl, rfl⟩
  | panic message => exact .inr (.inl ⟨message, rfl, rfl⟩)
  | stop => exact .inr (.inr ⟨rfl, aside_fireStop s⟩)
  | stopWith r => exact .inr (.inr ⟨rfl, aside_stopWith s r⟩)
  | note => exact .inr (.inr ⟨rfl,
    ⟨⟨_, rfl⟩, rfl, rfl, rfl, rfl, .inr ⟨_, _, _, rfl⟩, rfl, rfl⟩⟩)
  | closed id => exact .inr (.inr ⟨rfl, aside_createWaiter s id⟩)
  | listen id acts => exact .inr (.inr ⟨rfl, aside_listen s id acts⟩)
  | unlisten id => exact .inr (.inr ⟨rfl, aside_unlisten s id⟩)
  | tokenFired => exact .inr (.inr ⟨rfl, .refl s⟩)
  | debug => exact .inr (.inr ⟨rfl, .refl s⟩)
  | link act => exact .inr (.inr ⟨rfl, aside_onLink s act⟩)

/-! ### Acts of a run -/

/-- The act that a deed is. -/
def Deed.act? : Deed → Option Act
  | act a => some a
  | engineStop | heard _ => none

/-- The panic that a deed is. -/
def Deed.raised? (d : Deed) : Option String :=
  d.act?.bind Act.raised?

/-- The act that is performed in a move, by a callback or by someone else. -/
def performed? (s : Session) : Move → Option Act
  | .act a => some a
  | .tick => s.doing.head?.bind Deed.act?
  | _ => none

/-- The panic that is raised in a move. -/
def raised? (s : Session) (m : Move) : Option String :=
  (s.performed? m).bind Act.raised?

/-- The panics that are raised, in order. -/
def raised (s : Session) (ms : List Move) : List String :=
  seen move raised? s ms

theorem raised?_of_doing {s : Session} {d : Deed} {rest : List Deed} (hd : s.doing = d :: rest) :
    s.raised? .tick = d.raised? := by
  rw [raised?, performed?, hd]
  rfl

end Dialogue.Session
