/-
How a session opens.

Until the handshake has succeeded a session can be stopped before its first poll, while the
transport makes the handshake, between two polls, in the middle of one, and in the very poll in
which the handshake completes.  The code looks for the stop in five places, and each looks at
something else: at the verdict before the handshake is made, at the interrupt before it begins,
before each further poll and again before a poll ends, at the verdict once more when the stream is
open.  `opening?` is the table of all this, and the table asks one thing only: whether there was a
stop.

The table is about the steps of the future.  `Course` says what any move does to where the future
is, and from the two follows what has been done as long as a session is on its way: it has begun the
handshake, if it is that far, and nothing has ended it but a stop.
-/
import Dialogue.Proofs.Session.Dropping
import Dialogue.Proofs.Session.Reading

namespace Dialogue.Session

variable {s t : Session}

/-! ### The way to an open connection -/

/-- What the future does next on the way to an open connection: where it goes, and what it says. -/
def opening? (s : Session) (stopped : Bool) : Option (Position × List Event) :=
  match s.position with
  | .spawned => some (if stopped then (.finishing true, []) else (.preparing, []))
  | .preparing =>
    some (if stopped then (.finishing true, [.abandoned]) else (.awaiting, [.handshake]))
  | .handshaking => some (if stopped then (.finishing true, [.abandoned]) else (.awaiting, []))
  | .awaiting =>
    match s.link.outcome with
    | none => some (if stopped then (.finishing true, [.abandoned]) else (.handshaking, []))
    | some (.ok ()) => some (.opened, [])
    | some (.error text) =>
      some (if stopped then (.finishing true, [])
        else (.refusing (.transport .handshake text), [.error (.transport .handshake text)]))
  | .opened =>
    some (if stopped then (.discarding, [])
      else (.active .receive .reading .asking, [.connected s.name]))
  | .discarding =>
    match s.link.closeFault with
    | some _ => some (.finishing true, [])
    | none =>
      some (if s.link.closeHeld then (.discarding, []) else (.finishing true, [.wireClosed]))
  | _ => none

/-- What was done by the time the future is at a position on that way. -/
def Position.prologue? : Position → Option (List Event)
  | engine | neverRun | spawned | preparing => some []
  | handshaking | awaiting | opened | discarding => some [.handshake]
  | refusing _ | active _ _ _ | finishing _ | concluding _ _ | .over => none

/-- The future comes to a position, and something is said on the way there. -/
structure Comes (s t : Session) (q : Position) (told : List Event) : Prop where
  position : t.position = q
  said : t.chronicle = s.chronicle ++ told

namespace Comes

variable {q : Position}

theorem silent (position : t.position = q) (log : t.log = s.log) : Comes s t q [] :=
  ⟨position, (chronicle_of_log log).trans (List.append_nil _).symm⟩

theorem saying {e : Event} (position : t.position = q) (log : t.log = e :: s.log)
    (he : e.isNote = false) : Comes s t q [e] :=
  ⟨position, chronicle_of_cons log he⟩

end Comes

/-- A handshake that can be interrupted has been if and only if something has ended the session. -/
theorem Sound.pulled_iff (hs : Sound s)
    (hp : s.position = .preparing ∨ s.position = .handshaking ∨ s.position = .awaiting) :
    s.progress.handshake = .pulled ↔ s.progress.verdict ≠ none := by
  have hc := hs.coherent
  have hfits : s.progress.stage = .handshaking ∧ s.progress.handshake ≠ .absent := by
    have hf := hs.fits
    rcases hp with hp | hp | hp <;> rw [hp] at hf <;> exact hf
  unfold Progress.Coherent at hc
  rw [hfits.1] at hc
  refine ⟨hc.2.2.2, fun hv => ?_⟩
  cases hi : s.progress.handshake with
  | pulled => rfl
  | absent => exact absurd hi hfits.2
  | ready listening => exact absurd (hc.2.2.1 (by rw [hi]; rfl)) hv

/-- Where the future cannot be left it is being polled. -/
theorem Sound.running_of_transient (hs : Sound s) (h : ¬ s.position.CanRest) :
    s.running = true := by
  by_contra hr
  exact h (hs.rests (by simpa using hr))

/-! #### One position after the other -/

theorem comes_begin (hp : s.position = .spawned) {q : Position} {told : List Event}
    (h : s.opening? s.progress.verdict.isSome = some (q, told)) : Comes s s.begin q told := by
  simp only [opening?, hp] at h
  unfold begin
  by_cases hv : s.progress.verdict.isSome = true
  · rw [if_pos hv] at h ⊢
    cases h
    exact .silent rfl rfl
  · rw [if_neg hv] at h ⊢
    cases h
    exact .silent rfl rfl

theorem comes_beginHandshake (hs : Sound s) (hp : s.position = .preparing) {q : Position}
    {told : List Event} (h : s.opening? s.progress.verdict.isSome = some (q, told)) :
    Comes s s.beginHandshake q told := by
  have hpulled := hs.pulled_iff (.inl hp)
  simp only [opening?, hp] at h
  unfold beginHandshake
  by_cases hv : s.progress.verdict = none
  · rw [if_neg fun hi => hpulled.mp hi hv]
    simp only [hv, Option.isSome_none, Bool.false_eq_true, if_false] at h
    cases h
    exact .saying rfl rfl rfl
  · rw [if_pos (hpulled.mpr hv)]
    simp only [Option.isSome_iff_ne_none.mpr hv, if_true] at h
    cases h
    exact .saying rfl rfl rfl

theorem comes_resumeHandshake (hs : Sound s) (hp : s.position = .handshaking) {q : Position}
    {told : List Event} (h : s.opening? s.progress.verdict.isSome = some (q, told)) :
    Comes s s.resumeHandshake q told := by
  have hpulled := hs.pulled_iff (.inr (.inl hp))
  simp only [opening?, hp] at h
  unfold resumeHandshake
  by_cases hv : s.progress.verdict = none
  · rw [if_neg fun hi => hpulled.mp hi hv]
    simp only [hv, Option.isSome_none, Bool.false_eq_true, if_false] at h
    cases h
    exact .silent rfl rfl
  · rw [if_pos (hpulled.mpr hv)]
    simp only [Option.isSome_iff_ne_none.mpr hv, if_true] at h
    cases h
    exact .saying rfl rfl rfl

theorem comes_awaitHandshake (hs : Sound s) (hp : s.position = .awaiting) {q : Position}
    {told : List Event} (h : s.opening? s.progress.verdict.isSome = some (q, told)) :
    Comes s s.awaitHandshake q told := by
  have hpulled := hs.pulled_iff (.inr (.inr hp))
  simp only [opening?, hp] at h
  unfold awaitHandshake
  cases ho : s.link.outcome with
  | none =>
    rw [ho] at h
    by_cases hv : s.progress.verdict = none
    · simp only [hv, Option.isSome_none, Bool.false_eq_true, if_false] at h
      cases h
      show Comes s (if s.progress.handshake = .pulled then _ else _) _ _
      rw [if_neg fun hi => hpulled.mp hi hv]
      exact .silent rfl rfl
    · simp only [Option.isSome_iff_ne_none.mpr hv, if_true] at h
      cases h
      show Comes s (if s.progress.handshake = .pulled then _ else _) _ _
      rw [if_pos (hpulled.mpr hv)]
      exact .saying rfl rfl rfl
  | some outcome =>
    rw [ho] at h
    cases outcome with
    | ok value =>
      cases h
      exact .silent rfl rfl
    | error text =>
      dsimp only at h ⊢
      rw [fail_eq]
      by_cases hv : s.progress.verdict = none
      · simp only [hv, Option.isSome_none, Bool.false_eq_true, if_false] at h
        cases h
        exact .saying (if_pos hv) (if_pos hv) rfl
      · simp only [Option.isSome_iff_ne_none.mpr hv, if_true] at h
        cases h
        exact .silent (if_neg hv) (if_neg hv)

theorem comes_enterActive (hp : s.position = .opened) {q : Position} {told : List Event}
    (h : s.opening? s.progress.verdict.isSome = some (q, told)) : Comes s s.enterActive q told := by
  simp only [opening?, hp] at h
  unfold enterActive
  dsimp only
  by_cases hv : s.progress.verdict.isSome = true
  · rw [if_pos hv] at h ⊢
    cases h
    exact .silent rfl rfl
  · rw [if_neg hv] at h ⊢
    cases h
    exact .saying rfl rfl rfl

theorem comes_discard (hp : s.position = .discarding) {q : Position} {told : List Event}
    (h : s.opening? s.progress.verdict.isSome = some (q, told)) : Comes s s.discard q told := by
  simp only [opening?, hp] at h
  unfold discard
  cases hf : s.link.closeFault with
  | some text =>
    rw [hf] at h
    cases h
    exact .silent rfl rfl
  | none =>
    rw [hf] at h
    dsimp only at h ⊢
    by_cases hh : s.link.closeHeld = true
    · rw [if_pos hh] at h ⊢
      cases h
      exact .silent rfl rfl
    · rw [if_neg hh] at h ⊢
      cases h
      rw [wireClosed_eq]
      exact .saying rfl rfl rfl

/-- **On the way to an open connection the future goes by the table**, where somebody has stopped
the session if something has ended it. -/
theorem comes_of_opening (hs : Sound s) {q : Position} {told : List Event}
    (h : s.opening? s.progress.verdict.isSome = some (q, told)) : Comes s s.advance q told := by
  unfold advance
  cases hp : s.position with
  | spawned => exact comes_begin hp h
  | preparing => exact comes_beginHandshake hs hp h
  | handshaking => exact comes_resumeHandshake hs hp h
  | awaiting => exact comes_awaitHandshake hs hp h
  | opened => exact comes_enterActive hp h
  | discarding => exact comes_discard hp h
  | _ =>
    simp only [opening?, hp] at h
    cases h

/-! ### Every move -/

/-- Where the future can be brought by a step that is not its own, and what is said then. -/
inductive Brought (s : Session) : Position → List Event → Prop
  | stays : Brought s s.position []
  | given (hp : s.position = .engine) : Brought s .spawned []
  | disowned (hp : s.position = .engine) : Brought s .neverRun []
  | letGo (rests : s.position.CanRest) (there : s.position ≠ .neverRun ∧ s.position ≠ .over) :
      Brought s (.finishing false) s.lastWords

/-- A panic inside of the future is its end, with its last words. -/
theorem comes_of_panic {m : Move} (hr : s.running = true) (raised : s.raised? m ≠ none) :
    Comes s (s.move m) .over s.lastWords ∧ (s.move m).result = s.result := by
  obtain ⟨message, hpanic⟩ := performed?_of_raised raised
  obtain ⟨deeds, hmove, -⟩ := move_of_performed hpanic
  have ht := tearDown_of_running (s := { s with doing := deeds }) hr (.raised message)
  have hlog := log_tearDown (s := { s with doing := deeds }) hr (.raised message)
  rw [hmove]
  exact ⟨⟨ht.position, chronicle_of_lastWords hlog⟩, ht.result⟩

/-- What a move does to the course of the future. -/
inductive Course (s : Session) (m : Move) (t : Session) : Prop
  /-- The future takes its own next step. -/
  | advances (hm : m = .tick) (hd : s.doing = []) (hr : s.running = true) (ht : t = s.advance)
  | idles {q told} (hb : Brought s q told) (comes : Comes s t q told)
      (failed : t.progress.verdict = some .failed ↔ s.progress.verdict = some .failed)
      (stage : t.stage = s.stage ∨ s.stage = .active ∧ t.stage = .closing)
      (result : t.result = s.result)
  /-- A panic tears the future down. -/
  | torn (hr : s.running = true) (raised : s.raised? m ≠ none)
      (comes : Comes s t .over s.lastWords)
      (result : t.result = s.result)

namespace Course

variable {m : Move}

theorem beside (h : Beside s t) : Course s m t :=
  .idles .stays ⟨h.position, by rw [h.chronicle, List.append_nil]⟩ h.failed h.stage h.result

theorem brought {q : Position} {told : List Event} (hb : Brought s q told)
    (comes : Comes s t q told) (progress : t.progress = s.progress) (result : t.result = s.result) :
    Course s m t :=
  .idles hb comes (by rw [progress]) (.inl (congrArg Progress.stage progress)) result

theorem of_move (hs : Sound s) (m : Move) : Course s m (s.move m) := by
  by_cases hpanic : s.running = true ∧ s.raised? m ≠ none
  · obtain ⟨hcomes, hresult⟩ := comes_of_panic hpanic.1 hpanic.2
    exact .torn hpanic.1 hpanic.2 hcomes hresult
  have quiet : s.running = true → s.raised? m = none := by
    intro hr
    by_contra hne
    exact hpanic ⟨hr, hne⟩
  have rests : s.running = false → s.position.CanRun →
      s.position.CanRest ∧ s.position ≠ .neverRun ∧ s.position ≠ .over := by
    intro hr hcan
    refine ⟨hs.rests hr, ?_, ?_⟩ <;> intro hp <;> rw [hp] at hcan <;> exact hcan
  generalize ht : s.move m = t
  have hm := moves s m
  rw [ht] at hm
  cases hm with
  | stays => exact .brought .stays (.silent rfl rfl) rfl rfl
  | acts a => exact .beside (.of_act quiet)
  | @does d rest hd =>
    rw [raised?_of_doing hd] at quiet
    have hrest : Sound { s with doing := rest } := hs.aside (aside_doing s rest)
    exact .beside (.of_doing (.of_perform hrest quiet))
  | advances hd hr ha => exact .advances rfl hd hr (by rw [← ht, tick_of_running hd hr])
  | hands hp hq => exact .brought (.given hp) (.silent rfl rfl) rfl rfl
  | refuses hp ha =>
    have hwords : s.lastWords = [] := by rw [lastWords, hp]
    have hgone : Brought s (.finishing false) s.lastWords := by
      refine .letGo ?_ ?_ <;> rw [hp]
      · trivial
      · simp
    rw [hwords] at hgone
    exact .brought hgone (.silent rfl rfl) rfl rfl
  | resumes hr hp hq => exact .brought .stays (.silent rfl rfl) rfl rfl
  | misses hr hq hp => exact .brought .stays (.silent rfl rfl) rfl rfl
  | drops hr hp =>
    obtain ⟨hrest, hthere⟩ := rests hr hp
    rw [releaseOperations_eq]
    exact .brought (.letGo hrest hthere) ⟨rfl, chronicle_of_lastWords rfl⟩ rfl rfl
  | disowns hp =>
    rw [unhookEngine_eq]
    exact .brought (.disowned hp) (.silent rfl rfl) rfl rfl
  | shuts => exact .brought .stays (.silent rfl rfl) rfl rfl

end Course

/-! ### What was done on the way -/

theorem Position.prologue_of_early {p : Position} (h : p.isEarly = true) :
    ∃ w, p.prologue? = some w ∧ w.filter Event.isCallback = [] := by
  cases p <;> first | exact ⟨_, rfl, rfl⟩ | cases h

theorem Sound.stage_of_prologue {w : List Event} (hs : Sound s)
    (h : s.position.prologue? = some w) : s.stage = .notStarted ∨ s.stage = .handshaking := by
  have hf := hs.fits
  cases hp : s.position <;> rw [hp] at hf h <;>
    first | exact .inl hf | exact .inr hf.1 | cases h

/-- The table says what is done on the way. -/
theorem prologue_of_opening {stopped : Bool} {q : Position} {told : List Event}
    (h : s.opening? stopped = some (q, told)) :
    ∃ v, s.position.prologue? = some v ∧ ∀ w, q.prologue? = some w → w = v ++ told := by
  unfold opening? at h
  cases hp : s.position with
  | spawned | preparing =>
    rw [hp] at h
    refine ⟨[], rfl, fun w hw => ?_⟩
    cases stopped <;> cases h <;> cases hw
    rfl
  | handshaking =>
    rw [hp] at h
    refine ⟨[.handshake], rfl, fun w hw => ?_⟩
    cases stopped <;> cases h <;> cases hw
    rfl
  | awaiting =>
    rw [hp] at h
    refine ⟨[.handshake], rfl, fun w hw => ?_⟩
    dsimp only at h
    split at h <;> cases stopped <;> cases h <;> cases hw <;> rfl
  | opened =>
    rw [hp] at h
    refine ⟨[.handshake], rfl, fun w hw => ?_⟩
    cases stopped <;> cases h <;> cases hw
    rfl
  | discarding =>
    rw [hp] at h
    refine ⟨[.handshake], rfl, fun w hw => ?_⟩
    dsimp only at h
    split at h
    · cases h
      cases hw
    · cases hheld : s.link.closeHeld <;> rw [hheld] at h <;> cases h <;> cases hw
      rfl
  | _ =>
    rw [hp] at h
    cases h

/-- Where the future runs when it has left that way. -/
theorem position_of_unlisted {stopped : Bool} (hs : Sound s) (hr : s.running = true)
    (h : s.opening? stopped = none) :
    (∃ e, s.position = .refusing e) ∨ (∃ turn rx tx, s.position = .active turn rx tx) ∨
      (∃ resolves, s.position = .finishing resolves) ∨
        ∃ reason resolves, s.position = .concluding reason resolves := by
  have hcan := hs.runs hr
  cases hp : s.position with
  | spawned | preparing | handshaking | opened =>
    simp only [opening?, hp] at h
    cases h
  | awaiting | discarding =>
    simp only [opening?, hp] at h
    split at h <;> cases h
  | refusing e => exact .inl ⟨e, rfl⟩
  | active turn rx tx => exact .inr (.inl ⟨turn, rx, tx, rfl⟩)
  | finishing resolves => exact .inr (.inr (.inl ⟨resolves, rfl⟩))
  | concluding reason resolves => exact .inr (.inr (.inr ⟨reason, resolves, rfl⟩))
  | _ =>
    rw [hp] at hcan
    exact absurd hcan id

/-- No other step leads onto that way. -/
theorem prologue_advance {stopped : Bool} (hs : Sound s) (hr : s.running = true)
    (h : s.opening? stopped = none) : s.advance.position.prologue? = none := by
  rcases position_of_unlisted hs hr h
    with ⟨e, hp⟩ | ⟨turn, rx, tx, hp⟩ | ⟨resolves, hp⟩ | ⟨reason, resolves, hp⟩
  · rw [advance, hp]
    rfl
  · -- an active session has left the stages in which it opens
    have hfits := hs.fits
    rw [hp] at hfits
    by_contra hne
    obtain ⟨w, hw⟩ := Option.ne_none_iff_exists'.mp hne
    have hstage := Sound.stage_of_prologue (hs.advances hr (advances s)) hw
    rcases stage_advances hs (advances s) with hsame | hclosed | ⟨hbefore, -⟩ | ⟨hbefore, -⟩
    · rw [hsame] at hstage
      exact hstage.elim hfits.1.1 hfits.1.2.1
    · rw [hclosed] at hstage
      rcases hstage with hstage | hstage <;> cases hstage
    · exact hfits.1.1 hbefore
    · exact hfits.1.2.1 hbefore
  · simp only [advance, hp, conclude_eq]
    rfl
  · simp only [advance, hp, finish_eq]
    rfl

/-- **On the way to an open connection a session begins the handshake, and does nothing else.** -/
theorem chronicle_of_prologue {o : Origin} {ms : List Move} {w : List Event}
    (h : (o.session.after ms).position.prologue? = some w) :
    (o.session.after ms).chronicle = w := by
  induction ms using List.reverseRecOn generalizing w with
  | nil =>
    cases h
    rfl
  | append_singleton ms m ih =>
    rw [after_concat] at h ⊢
    have hs := sound_after o ms
    have hcourse := Course.of_move hs m
    cases hcourse with
    | advances hm hd hr ht =>
      rw [ht] at h ⊢
      cases hopening : (o.session.after ms).opening?
          (o.session.after ms).progress.verdict.isSome with
      | none =>
        rw [prologue_advance hs hr hopening] at h
        cases h
      | some step =>
        obtain ⟨q, told⟩ := step
        have hcomes := comes_of_opening hs hopening
        obtain ⟨v, hv, hnext⟩ := prologue_of_opening hopening
        rw [hcomes.position] at h
        rw [hcomes.said, ih hv, hnext w h]
    | @idles q told hb comes failed stage result =>
      rw [comes.position] at h
      rw [comes.said]
      cases hb with
      | stays => rw [ih h, List.append_nil]
      | given hp =>
        cases h
        rw [ih (w := []) (by rw [hp]; rfl), List.append_nil]
      | disowned hp =>
        cases h
        rw [ih (w := []) (by rw [hp]; rfl), List.append_nil]
      | letGo rests there => cases h
    | torn hr raised comes result =>
      rw [comes.position] at h
      cases h

/-! ### What ends a session that nobody stopped -/

/-- Apart from a stop, only the end of a future that was let go is no failure. -/
theorem conclude_of_cancelled {m : Move} (hd : .engineStop ∉ s.doing)
    (h : s.condition? m = some .cancelled) : s.move m = s.conclude false := by
  cases m with
  | tick =>
    cases hdoing : s.doing with
    | cons d rest =>
      rw [condition?, hdoing] at h
      cases d with
      | engineStop => exact absurd (by rw [hdoing]; exact List.mem_cons_self) hd
      | act a => cases h
      | heard id => cases h
    | nil =>
      cases hr : s.running with
      | false =>
        rw [condition?, hdoing, hr] at h
        cases h
      | true =>
        rw [condition?, hdoing, hr] at h
        have hobs : s.observed? = some .cancelled := h
        unfold observed? at hobs
        split at hobs
        · next hp => rw [tick_of_running hdoing hr, advance, hp]
        · exact absurd rfl (Told.ne_cancelled_of_fault hobs)
  | _ => cases h

/-- A panic closes the session, or it is none of the session's business. -/
theorem closed_of_panic {m : Move} (hs : Sound s) (h : s.raised? m ≠ none) :
    (s.move m).stage = .closed ∨ (s.move m).progress.verdict = s.progress.verdict := by
  obtain ⟨message, hpanic⟩ := performed?_of_raised h
  obtain ⟨deeds, hmove, -⟩ := move_of_performed hpanic
  have hfits := (hs.move m).fits
  cases hr : s.running with
  | false =>
    rw [hmove, act, tearDown_of_not_running (s := { s with doing := deeds }) hr]
    exact .inr rfl
  | true =>
    have hover : (s.move m).position = .over := by
      rw [hmove]
      exact (tearDown_of_running (s := { s with doing := deeds }) hr (.raised message)).position
    rw [hover] at hfits
    exact .inl hfits

/-- What ends a session that nobody stopped closes it there and then, panics included. -/
theorem closed_of_unasked {o : Origin} {ms : List Move} (h : o.session.stopCalls ms = [])
    (hv : (o.session.after ms).progress.verdict ≠ none) :
    (o.session.after ms).stage = .closed := by
  induction ms using List.reverseRecOn with
  | nil => exact absurd rfl hv
  | append_singleton ms m ih =>
    rw [stopCalls_concat, List.append_eq_nil_iff] at h
    have hs := sound_after o ms
    by_cases hbefore : (o.session.after ms).progress.verdict = none
    · rw [after_concat] at hv ⊢
      by_cases hraised : (o.session.after ms).raised? m = none
      · have hobs := observes_move hs m hraised
        cases hc : (o.session.after ms).condition? m with
        | none =>
          rw [hobs.verdict, hbefore, hc] at hv
          exact absurd rfl hv
        | some e =>
          by_cases he : e = .cancelled
          · subst he
            rw [conclude_of_cancelled (engineStop_not_mem_of_unasked h.1) hc, stage, conclude_eq,
              settleProgress_eq]
          · exact hobs.closes e hc he
      · refine (closed_of_panic hs hraised).resolve_right fun hsame => ?_
        rw [hsame] at hv
        exact hv hbefore
    · exact closed_append (ih h.1 hbefore) [m]

/-- **On the way to an open connection a session is ended by a stop, and by nothing else.** -/
theorem judged_iff_fired {o : Origin} {ms : List Move} {w : List Event}
    (heard : o.session.stopPanics ms = []) (hd : .engineStop ∉ (o.session.after ms).doing)
    (hp : (o.session.after ms).position.prologue? = some w)
    (hn : (o.session.after ms).position ≠ .neverRun) :
    (o.session.after ms).progress.verdict.isSome = (o.session.after ms).stopSignal.isFired := by
  have hs := sound_after o ms
  cases hf : (o.session.after ms).stopSignal.isFired with
  | true =>
    exact Option.isSome_iff_ne_none.mpr ((hooked_of_heard heard).verdict_ne_none hs hf hd hn)
  | false =>
    have hunasked := (isFired_after o ms).mp hf
    rw [Option.isSome_eq_false_iff, Option.isNone_iff_eq_none]
    by_contra hv
    have hclosed := closed_of_unasked hunasked hv
    have hstage := hs.stage_of_prologue hp
    rw [hclosed] at hstage
    exact hstage.elim nofun nofun

end Dialogue.Session
