/-
A future that is dropped shuts its session down, wherever it is.

A dropped future runs the end of its session and nothing else: it reports the end, and it tells
whoever waits for it.  So there are only three places where it can be from then on, and `WindsUp`
says for each what has been done.  Others can still do what they like, between these steps and in
the callbacks that run in them; `Beside` says how little that amounts to.

What is reported must be the failure that was recorded before, if one was.  That a failed session
has recorded its failure whenever its future can be dropped is not obvious, because a failure is
recorded only when the handler has heard of it, and handlers can panic.  It is part of what `Told`
says, which holds of every session whose future is not gone.
-/
import Dialogue.Proofs.Session.Callbacks
import Dialogue.Proofs.Session.Choosing
import Dialogue.Proofs.Session.Resolving
import Dialogue.Proofs.Session.Waking

namespace Dialogue.Session

variable {s t : Session}

/-! ### What others can do meanwhile -/

/-- A step of others, which leaves alone what the future does and what it did. -/
structure Beside (s t : Session) : Prop where
  position : t.position = s.position
  running : t.running = s.running
  failure : t.failure = s.failure
  result : t.result = s.result
  chronicle : t.chronicle = s.chronicle
  failed : t.progress.verdict = some .failed ↔ s.progress.verdict = some .failed
  /-- At most the session begins to close. -/
  stage : t.stage = s.stage ∨ s.stage = .active ∧ t.stage = .closing
  /-- Once something has ended the session, its record and its outbox are left alone as well. -/
  judged : s.progress.verdict ≠ none → t.progress = s.progress ∧ t.outbox = s.outbox

theorem progress_act_of_judged (hv : s.progress.verdict ≠ none) {a : Act}
    (quiet : a.raised? = none) : (s.act a).progress = s.progress := by
  cases a with
  | send message => rw [act, send_of_judged hv]
  | echo => rw [act, send_of_judged hv]
  | stopWith r => rw [act, chooseReason_of_judged hv]; rfl
  | panic message => cases quiet
  | closed id => simp only [act, createWaiter]; split <;> split <;> rfl
  | listen id acts => simp only [act, listen, unhookStop_eq]; split <;> rfl
  | unlisten id => simp only [act, unlisten, unhookStop_eq]; split <;> rfl
  | link a => simp only [act, onLink, touch_eq]
  | _ => rfl

namespace Beside

theorem of_same (position : t.position = s.position) (running : t.running = s.running)
    (failure : t.failure = s.failure) (result : t.result = s.result) (log : t.log = s.log)
    (progress : t.progress = s.progress) (outbox : t.outbox = s.outbox) : Beside s t :=
  ⟨position, running, failure, result, chronicle_of_log log, by rw [progress],
    .inl (congrArg Progress.stage progress), fun _ => ⟨progress, outbox⟩⟩

theorem callbacks (h : Beside s t) : t.callbacks = s.callbacks := by
  rw [callbacks_eq_filter, callbacks_eq_filter, h.chronicle]

theorem trans {u : Session} (h : Beside s t) (h' : Beside t u) : Beside s u := by
  refine ⟨h'.position.trans h.position, h'.running.trans h.running, h'.failure.trans h.failure,
    h'.result.trans h.result, h'.chronicle.trans h.chronicle, h'.failed.trans h.failed, ?_, ?_⟩
  · rcases h.stage with hsame | ⟨hactive, hclosing⟩
    · rw [← hsame]
      exact h'.stage
    · rcases h'.stage with hsame | ⟨hactive', -⟩
      · exact .inr ⟨hactive, hsame.trans hclosing⟩
      · rw [hclosing] at hactive'
        cases hactive'
  intro hv
  obtain ⟨hprogress, houtbox⟩ := h.judged hv
  obtain ⟨hprogress', houtbox'⟩ := h'.judged (by rwa [hprogress])
  exact ⟨hprogress'.trans hprogress, houtbox'.trans houtbox⟩

theorem of_quiet {a : Act} (quiet : a.raised? = none) : Beside s (s.act a) := by
  obtain ⟨message, -, ha⟩ | ⟨message, rfl, -⟩ | ⟨-, ha⟩ := act_cases s a
  · rw [ha]
    by_cases hv : s.progress.verdict = none
    · rw [send_eq]
      split
      · exact .of_same rfl rfl rfl rfl rfl rfl rfl
      · exact ⟨rfl, rfl, rfl, rfl, rfl, .rfl, .inl rfl, fun hne => absurd hv hne⟩
    · rw [send_of_judged hv]
      exact .of_same rfl rfl rfl rfl rfl rfl rfl
  · cases quiet
  · obtain ⟨r, hr⟩ := ha.progress
    exact ⟨ha.position, ha.running, ha.failure, ha.result, ha.chronicle, by rw [hr],
      .inl (by rw [Session.stage, hr]; rfl), fun hv =>
        ⟨progress_act_of_judged hv quiet, ha.outbox⟩⟩

/-- An act that panics tears nothing down unless the future is running. -/
theorem of_act {a : Act} (quiet : s.running = true → a.raised? = none) : Beside s (s.act a) := by
  by_cases hpanic : a.raised? = none
  · exact of_quiet hpanic
  · have hrunning : s.running = false := by
      rw [Bool.eq_false_iff]
      exact fun hr => hpanic (quiet hr)
    obtain ⟨message, rfl⟩ := Act.eq_panic_of_raised hpanic
    rw [act, tearDown_of_not_running hrunning]
    exact .of_same rfl rfl rfl rfl rfl rfl rfl

theorem of_doing {deeds : List Deed} (h : Beside { s with doing := deeds } t) : Beside s t :=
  ⟨h.position, h.running, h.failure, h.result, h.chronicle, h.failed, h.stage, h.judged⟩

theorem of_onStop (hs : Sound s) : Beside s s.onStop := by
  by_cases hv : s.progress.verdict = none
  · have hfailed : s.onStop.progress.verdict = some .failed ↔
        s.progress.verdict = some .failed := by
      rw [progress_onStop]
      show some (s.progress.verdict.getD .cancelled) = _ ↔ _
      rw [hv]
      simp
    have hstage : s.onStop.stage = s.stage ∨ s.stage = .active ∧ s.onStop.stage = .closing := by
      have hstopped : s.onStop.stage = s.stage.stopped := by rw [Session.stage, progress_onStop]
      rw [hstopped]
      cases s.stage <;> simp [Stage.stopped]
    rw [onStop_eq]
    exact ⟨rfl, rfl, rfl, rfl, rfl, hfailed, hstage, fun hne => absurd hv hne⟩
  · rw [hs.onStop_of_judged hv]
    exact .of_same rfl rfl rfl rfl rfl rfl rfl

theorem of_perform (hs : Sound s) {d : Deed} (quiet : s.running = true → d.raised? = none) :
    Beside s (s.perform d) := by
  cases d with
  | act a => exact of_act quiet
  | engineStop => exact of_onStop hs
  | heard id => exact .of_same rfl rfl rfl rfl rfl rfl rfl

/-- While the future runs, and once it is gone, every move is one of others or its own next step. -/
theorem of_move {m : Move} (hs : Sound s)
    (going : s.running = true ∨ s.position = .neverRun ∨ s.position = .over)
    (quiet : s.running = true → s.raised? m = none) :
    (m = .tick ∧ s.doing = [] ∧ s.running = true ∧ s.move m = s.advance) ∨ Beside s
    (s.move m) := by
  have hengine : s.position ≠ .engine := by
    rintro hp
    rcases going with hr | hgone
    · have hcan := hs.runs hr
      rw [hp] at hcan
      exact hcan
    · rw [hp] at hgone
      rcases hgone with hnever | hover
      · cases hnever
      · cases hover
  have hgone : s.running = false → ¬ s.position.CanRun := by
    intro hr hcan
    rcases going with hr' | hnever | hover
    · rw [hr] at hr'
      cases hr'
    · rw [hnever] at hcan
      exact hcan
    · rw [hover] at hcan
      exact hcan
  generalize ht : s.move m = t
  have hm := moves s m
  rw [ht] at hm
  cases hm with
  | stays => exact .inr (.of_same rfl rfl rfl rfl rfl rfl rfl)
  | acts a => exact .inr (of_act quiet)
  | @does d rest hd =>
    rw [raised?_of_doing hd] at quiet
    have hrest : Sound { s with doing := rest } := hs.aside (aside_doing s rest)
    exact .inr (of_doing (of_perform hrest quiet))
  | advances hd hr ha => exact .inl ⟨rfl, hd, hr, by rw [← ht, tick_of_running hd hr]⟩
  | hands hp hq => exact absurd hp hengine
  | refuses hp ha => exact absurd hp hengine
  | resumes hr hp hq => exact absurd hp (hgone hr)
  | misses hr hq hp => exact .inr (.of_same rfl rfl rfl rfl rfl rfl rfl)
  | drops hr hp => exact absurd hp (hgone hr)
  | disowns hp => exact absurd hp hengine
  | shuts => exact .inr (.of_same rfl rfl rfl rfl rfl rfl rfl)

/-- Once the future is gone, every move is one of others, whoever panics. -/
theorem of_gone (hs : Sound s) (gone : s.position = .neverRun ∨ s.position = .over) (m : Move) :
    Beside s (s.move m) := by
  have hrests : s.running ≠ true := by
    intro hr
    have hcan := hs.runs hr
    rcases gone with hnever | hover
    · rw [hnever] at hcan
      exact hcan
    · rw [hover] at hcan
      exact hcan
  obtain ⟨-, -, hr, -⟩ | hb := of_move (m := m) hs (.inr gone) fun hr => absurd hr hrests
  · exact absurd hr hrests
  · exact hb

end Beside

/-! ### A failure that is reported is recorded -/

/-- As long as its future is not gone, a session has told its handler a part of a report, whatever
panicked. -/
theorem told_of_standing {o : Origin} {ms : List Move}
    (h : (o.session.after ms).position ≠ .over) : ∃ r, Told (o.session.after ms) r := by
  induction ms using List.reverseRecOn with
  | nil => exact ⟨{}, o.told⟩
  | append_singleton ms m ih =>
    rw [after_concat] at h ⊢
    have hs := sound_after o ms
    obtain ⟨r, hr⟩ := ih fun hover => h ((announces_move hs m).over hover).1
    by_cases hquiet : (o.session.after ms).raised? m = none
    · exact hr.moves hs (moves _ m) hquiet
    · obtain ⟨message, hpanic⟩ := performed?_of_raised hquiet
      obtain ⟨deeds, hmove, -⟩ := move_of_performed hpanic
      rw [hmove] at h ⊢
      have hrunning : (o.session.after ms).running = false := by
        rw [Bool.eq_false_iff]
        intro hrunning
        exact h (tearDown_of_running (s := { o.session.after ms with doing := deeds }) hrunning
          (.raised message)).position
      rw [act, tearDown_of_not_running (s := { o.session.after ms with doing := deeds }) hrunning]
      exact ⟨r, hr.of_same rfl .rfl rfl rfl rfl⟩

/-! ### Letting go of the future -/

theorem position_of_letsGo {m : Move} (h : s.LetsGo m) : s.position ≠ .over := by
  intro hover
  cases m with
  | drop =>
    have hcan := h.2
    rw [hover] at hcan
    exact hcan
  | spawn =>
    have hp := h.1
    rw [hover] at hp
    cases hp
  | _ => exact h

theorem running_of_letsGo {m : Move} (hs : Sound s) (h : s.LetsGo m) : s.running = false := by
  cases m with
  | drop => exact h.1
  | spawn =>
    rw [Bool.eq_false_iff]
    intro hr
    have hcan := hs.runs hr
    rw [h.1] at hcan
    exact hcan
  | _ => exact absurd h id

theorem isTold_of_letsGo {m : Move} (hs : Sound s) (h : s.LetsGo m) :
    s.position.isTold = false := by
  have hstanding := position_of_letsGo h
  cases m with
  | drop =>
    have hrest := hs.rests h.1
    cases hp : s.position with
    | concluding r b =>
      rw [hp] at hrest
      exact absurd hrest id
    | _ => first | rfl | exact absurd hp hstanding
  | spawn =>
    rw [h.1]
    rfl
  | _ => exact absurd h id

theorem raised?_of_letsGo {m : Move} (h : s.LetsGo m) : s.raised? m = none := by
  cases m with
  | drop => rfl
  | spawn => rfl
  | _ => exact absurd h id

/-! ### Winding up -/

/-- What a session that is let go will report as its end. -/
def lastReason (s : Session) : Ending :=
  s.failure.getD .cancelled

/-- How far a session has come that was let go in an earlier state of it. -/
inductive WindsUp (s t : Session) : Prop
  /-- The end is to be reported. -/
  | finishing (position : t.position = .finishing false) (running : t.running = true)
      (said : t.chronicle = s.chronicle ++ s.lastWords) (failure : t.failure = s.failure)
      (failed : t.progress.verdict = some .failed ↔ s.failure ≠ none) (result : t.result = none)
  /-- The end was reported, and the handler has still to return. -/
  | concluding (position : t.position = .concluding s.lastReason false)
      (running : t.running = true)
      (said : t.chronicle = s.chronicle ++ s.lastWords ++ [.closed s.lastReason])
      (transmission : t.progress.transmission = .idle) (result : t.result = none)
  | gone (position : t.position = .over) (running : t.running = false)
      (said : t.chronicle = s.chronicle ++ s.lastWords ++ [.closed s.lastReason])
      (transmission : t.progress.transmission = .idle) (result : t.result = none)

namespace WindsUp

/-- The end is reported with the failure that was recorded before, if one was. -/
theorem reason_eq (failure : t.failure = s.failure)
    (failed : t.progress.verdict = some .failed ↔ s.failure ≠ none) :
    t.reason = s.lastReason := by
  unfold reason lastReason
  split
  · next hv =>
    obtain ⟨e, he⟩ := Option.ne_none_iff_exists'.mp (failed.mp hv)
    rw [failure, he]
    rfl
  · next hv =>
    have hnone : s.failure = none := by
      by_contra hne
      exact hv (failed.mpr hne)
    rw [hnone]
    rfl

theorem of_letsGo {m : Move} {r : Report} (hs : Sound s) (ht : Told s r) (h : s.LetsGo m) :
    WindsUp s (s.move m) := by
  have hplace := finishing_of_letsGo h
  have htold := isTold_of_letsGo hs h
  have hfailure := ht.recorded (hs.reported?_of_rests (running_of_letsGo hs h)) htold
  have hfailed : s.progress.verdict = some .failed ↔ s.failure ≠ none := by
    rw [hfailure]
    exact ht.failed
  have hresult := ht.result_eq_none htold
  cases m with
  | drop =>
    have hmove : s.move .drop
        = { s.releaseOperations with position := .finishing false, running := true } := by
      obtain ⟨hr, hcan⟩ := h
      simp only [move, hr, Bool.false_eq_true, if_false, dropFuture]
      cases hp : s.position <;> first | rfl | (rw [hp] at hcan; exact absurd hcan id)
    rw [hmove, releaseOperations_eq]
    exact .finishing rfl rfl (chronicle_of_lastWords rfl) rfl hfailed hresult
  | spawn =>
    obtain ⟨hp, ha⟩ := h
    have hwords : s.lastWords = [] := by
      rw [lastWords, hp]
    simp only [move, hp, if_true, spawn, ha, Bool.false_eq_true, if_false]
    exact .finishing rfl rfl (by rw [hwords, List.append_nil]; rfl) rfl hfailed hresult
  | _ => exact absurd h id

theorem judged_of_closed (hs : Sound t) (h : t.stage = .closed) : t.progress.verdict ≠ none :=
  hs.coherent.ne_none_of_ending (.inr h)

/-- Whatever others do meanwhile, the session has come as far as it had. -/
theorem beside {u : Session} (h : WindsUp s t) (hs : Sound t) (hb : Beside t u) : WindsUp s u := by
  have hfits := hs.fits
  cases h with
  | finishing position running said failure failed result =>
    exact .finishing (hb.position.trans position) (hb.running.trans running)
      (hb.chronicle.trans said) (hb.failure.trans failure) (hb.failed.trans failed)
      (hb.result.trans result)
  | concluding position running said transmission result =>
    rw [position] at hfits
    have hsame := (hb.judged (judged_of_closed hs hfits)).1
    exact .concluding (hb.position.trans position) (hb.running.trans running)
      (hb.chronicle.trans said) (by rw [hsame, transmission]) (hb.result.trans result)
  | gone position running said transmission result =>
    rw [position] at hfits
    have hsame := (hb.judged (judged_of_closed hs hfits)).1
    exact .gone (hb.position.trans position) (hb.running.trans running)
      (hb.chronicle.trans said) (by rw [hsame, transmission]) (hb.result.trans result)

/-- The future reports the end, and then it is gone. -/
theorem advance (h : WindsUp s t) (hr : t.running = true) : WindsUp s t.advance := by
  cases h with
  | finishing position running said failure failed result =>
    have hreason := reason_eq failure failed
    have hadvance : t.advance = t.conclude false := by rw [Session.advance, position]
    have hlog : (t.conclude false).log = .closed s.lastReason :: t.log := by
      rw [conclude_eq, hreason]
    have hsaid := chronicle_of_cons hlog rfl
    rw [hadvance]
    refine .concluding ?_ ?_ (by rw [hsaid, said]) ?_ ?_
    · rw [conclude_eq, hreason]
    · rw [conclude_eq, settleProgress_eq]
      exact running
    · rw [conclude_eq, settleProgress_eq]
    · rw [conclude_eq, settleProgress_eq]
      exact result
  | concluding position running said transmission result =>
    have hadvance : t.advance = t.finish s.lastReason false := by rw [Session.advance, position]
    rw [hadvance, finish_eq, unhookEngine_eq]
    exact .gone rfl rfl said transmission result
  | gone position running =>
    rw [running] at hr
    cases hr

theorem going (h : WindsUp s t) : t.running = true ∨ t.position = .over := by
  cases h with
  | finishing _ running => exact .inl running
  | concluding _ running => exact .inl running
  | gone position => exact .inr position

theorem step (h : WindsUp s t) (hs : Sound t) {m : Move} (quiet : t.raised? m = none) :
    WindsUp s (t.move m) := by
  obtain ⟨-, -, hr, hadvance⟩ | hb :=
    Beside.of_move (m := m) hs (h.going.imp_right .inr) fun _ => quiet
  · rw [hadvance]
    exact h.advance hr
  · exact h.beside hs hb

theorem run (h : WindsUp s t) (hs : Sound t) {ns : List Move} (quiet : t.raised ns = []) :
    WindsUp s (t.after ns) := by
  induction ns generalizing t with
  | nil => exact h
  | cons m ns ih =>
    rw [raised, seen, List.append_eq_nil_iff, Option.toList_eq_nil_iff] at quiet
    exact ih (h.step hs quiet.1) (hs.move m) quiet.2

end WindsUp

/-! ### Every run -/

/-- A session that was shut down completely, having been let go in an earlier state of it. -/
structure ShutDown (s t : Session) : Prop where
  position : t.position = .over
  stage : t.stage = .closed
  transmission : t.progress.transmission = .idle
  /-- The outbox is empty, and nobody waits on it. -/
  outbox : t.outbox.values = [] ∧ t.outbox.waiting = .idle
  /-- An unfinished handshake was dropped, the end was reported, and nothing else happened. -/
  said : t.chronicle = s.chronicle ++ s.lastWords ++ [.closed s.lastReason]
  ready : ∀ id, t.IsHeld id → id ∈ t.readyWaiters
  /-- The future did not resolve. -/
  result : t.result = none

/-- Nothing happens to a session that is over, whoever panics. -/
theorem beside_of_over {o : Origin} {ms : List Move} (h : (o.session.after ms).position = .over)
    (ls : List Move) : Beside (o.session.after ms) (o.session.after (ms ++ ls)) := by
  induction ls using List.reverseRecOn with
  | nil =>
    rw [List.append_nil]
    exact .of_same rfl rfl rfl rfl rfl rfl rfl
  | append_singleton ls m ih =>
    have hs := sound_after o (ms ++ ls)
    have hover := ih.position.trans h
    rw [← List.append_assoc, after_concat]
    exact ih.trans (Beside.of_gone hs (.inr hover) m)

theorem WindsUp.shutDown {o : Origin} {ms : List Move} (h : WindsUp s (o.session.after ms))
    (hover : (o.session.after ms).position = .over) (quiet : o.session.reportPanics ms = []) :
    ShutDown s (o.session.after ms) := by
  have hs := sound_after o ms
  have hclosed : (o.session.after ms).stage = .closed := by
    have hfits := hs.fits
    rwa [hover] at hfits
  have hticket : (o.session.after ms).outbox.waiting.ticket? = none := by rw [hs.ticket, hover]; rfl
  cases h with
  | finishing position =>
    rw [position] at hover
    cases hover
  | concluding position =>
    rw [position] at hover
    cases hover
  | gone _ _ said transmission result =>
    refine ⟨hover, hclosed, transmission, ⟨hs.emptied (.inr hclosed), ?_⟩, said, ?_, result⟩
    · exact Handoff.Queue.idle_of_ticket? hticket
    · intro id hid
      exact ready_of_over hover quiet hid

/--
**Letting go of the future shuts the session down completely, at any moment of any run.**

The end had not been reported before.  The session is over after some steps of its own, whatever its
callbacks do.  If none of them panics it is then closed and idle with an empty outbox; the handler
was told of the end once, with the failure that was recorded before or else as cancelled; an
unfinished handshake was dropped, and nothing was written.  Whoever waits for the end learns of it.
Whatever is done with the session later changes none of this: its record of progress and its outbox
stay the same.
-/
theorem shutdown_of_run (o : Origin) (ms : List Move) {m : Move}
    (h : (o.session.after ms).LetsGo m) :
    (∀ e, .closed e ∉ (o.session.after ms).journal) ∧
    (∃ n, (o.session.after (ms ++ m :: .replicate n .tick)).position = .over ∧
      (o.session.after (ms ++ m :: .replicate n .tick)).isQuiet = true) ∧
    ∀ ns, ((o.session.after ms).move m).raised ns = [] →
      (o.session.after (ms ++ m :: ns)).position = .over →
      ∀ ls, ShutDown (o.session.after ms) (o.session.after (ms ++ m :: ns ++ ls)) ∧
        (o.session.after (ms ++ m :: ns ++ ls)).progress
          = (o.session.after (ms ++ m :: ns)).progress ∧
        (o.session.after (ms ++ m :: ns ++ ls)).outbox
          = (o.session.after (ms ++ m :: ns)).outbox := by
  have hs := sound_after o ms
  have hstanding := position_of_letsGo h
  obtain ⟨r, hr⟩ := told_of_standing hstanding
  refine ⟨?_, ?_, ?_⟩
  · intro e hmem
    have hcall : .closed e ∈ (o.session.after ms).callbacks := List.mem_filter.mpr ⟨hmem, rfl⟩
    rw [hr.callbacks, isTold_of_letsGo hs h] at hcall
    exact r.closed_not_mem_prelude e (by simpa using hcall)
  · have perm : ∀ l, ((o.session.after ms).order l).Perm l := by
      rw [order_after]
      exact o.order_perm
    obtain ⟨n, hn⟩ := over_of_letsGo perm h
    exact ⟨n, by rwa [after_append]⟩
  · intro ns quiet hover ls
    have hwinds : WindsUp (o.session.after ms) (o.session.after (ms ++ m :: ns)) := by
      rw [after_append, after_cons]
      exact (WindsUp.of_letsGo hs hr h).run (hs.move m) quiet
    have hpanics : o.session.reportPanics (ms ++ m :: ns) = [] := by
      have hquiet : (o.session.after ms).raised (m :: ns) = [] := by
        rw [raised, seen, raised?_of_letsGo h]
        exact quiet
      rw [reportPanics, seen_append, List.append_eq_nil_iff]
      exact ⟨((resolves_after o ms).before hstanding).2, reportPanics_of_quiet hquiet⟩
    have hbeside := beside_of_over hover ls
    obtain ⟨hover', hpanics'⟩ := over_append hover ls
    have hjudged : (o.session.after (ms ++ m :: ns)).progress.verdict ≠ none := by
      have hsound := sound_after o (ms ++ m :: ns)
      have hfits := hsound.fits
      rw [hover] at hfits
      exact WindsUp.judged_of_closed hsound hfits
    have hwinds' := hwinds.beside (sound_after o _) hbeside
    exact ⟨hwinds'.shutDown hover' (hpanics'.trans hpanics), hbeside.judged hjudged⟩

/-- The session with the stuck write cannot read what its peer says while it waits for the write. -/
def failedMidWrite : List Move :=
  .serve :: .poll :: .replicate 12 .tick ++ .act (.link (.peerError "reset")) :: .turn ::
    .replicate 8 .tick

/-- If its future is dropped then, the session ends there and then with that failure. -/
theorem shutDown_of_stuckWrite :
    ShutDown (Origin.stuckWrite.session.after failedMidWrite)
        (Origin.stuckWrite.session.after (failedMidWrite ++ .drop :: .replicate 2 .tick)) ∧
      (Origin.stuckWrite.session.after failedMidWrite).lastReason = .transport .read "reset" := by
  have hrests : (Origin.stuckWrite.session.after failedMidWrite).running = false := by
    decide +kernel
  have hposition : (Origin.stuckWrite.session.after failedMidWrite).position
      = .active .receive .done .flushing := by decide +kernel
  have hcan : (Origin.stuckWrite.session.after failedMidWrite).position.CanRun := by
    rw [hposition]
    trivial
  have hquiet : ((Origin.stuckWrite.session.after failedMidWrite).move .drop).raised
      (.replicate 2 .tick) = [] := by decide +kernel
  have hover : (Origin.stuckWrite.session.after
      (failedMidWrite ++ .drop :: .replicate 2 .tick)).position = .over := by decide +kernel
  obtain ⟨-, -, hdown⟩ := shutdown_of_run Origin.stuckWrite failedMidWrite (m := .drop)
    ⟨hrests, hcan⟩
  have hend := (hdown _ hquiet hover []).1
  rw [List.append_nil] at hend
  exact ⟨hend, by decide +kernel⟩

end Dialogue.Session
