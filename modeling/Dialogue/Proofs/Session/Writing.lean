/-
What is written to the peer.

A message passes three hands: `send` accepts it or drops it, the outbox keeps it, and the transmit
region takes it out and hands it to the sink.  The histories of the first and the last are
`accepted` and `handed`.  As long as nothing has ended the session no message is missing in between:
what was handed on, what is in flight and what is buffered make up what was accepted, in this order.
That is `Writes.whole`.  A stop or a failure empties the buffer and breaks this for good, but
nothing is taken out of the outbox afterwards, so what was handed on stays a first part of what had
been accepted.
-/
import Dialogue.Proofs.Session.Stopping

namespace Dialogue.Session

/-! ### Histories -/

/-- What is handed to the sink of the connection. -/
inductive Frame
  | message (text : String)
  | close (text : String)
deriving DecidableEq, Repr

/-- The text of a frame. -/
def Frame.text : Frame → String
  | message text | close text => text

/-- The message that a frame is. -/
def Frame.message? : Frame → Option String
  | message text => some text
  | close _ => none

/-- The messages among frames. -/
def messages (frames : List Frame) : List String :=
  frames.filterMap Frame.message?

/-- The frame that is handed to the sink in the next step of the future. -/
def Position.frame? : Position → Option Frame
  | active .transmit _ (.writing message) => some (.message message)
  | active .transmit _ (.announcing frame) => some (.close frame)
  | _ => none

/-- The frame that is handed to the sink in a move, whether or not the sink takes it. -/
def frame? (s : Session) : Move → Option Frame
  | .tick => if s.doing.isEmpty && s.running then s.position.frame? else none
  | _ => none

/-- The frames that are handed to the sink, in order. -/
def handed (s : Session) (ms : List Move) : List Frame :=
  seen move frame? s ms

/-- The message that an act sends, unless the session has ended. -/
def accepts? (s : Session) (a : Act) : Option String :=
  if s.progress.verdict = none then a.sent? else none

/-- The message that is accepted in a move. -/
def acceptance? (s : Session) : Move → Option String
  | .act a => s.accepts? a
  | .tick =>
    match s.doing with
    | .act a :: _ => s.accepts? a
    | _ => none
  | _ => none

theorem acceptance?_eq (s : Session) (m : Move) :
    s.acceptance? m = (s.performed? m).bind s.accepts? := by
  cases m with
  | tick =>
    rw [acceptance?, performed?]
    cases s.doing with
    | nil => rfl
    | cons d rest => cases d <;> rfl
  | _ => rfl

/-- The messages that are accepted, in the order in which they were sent. -/
def accepted (s : Session) (ms : List Move) : List String :=
  seen move acceptance? s ms

/-- The text whose write was started. -/
def Event.written? : Event → Option String
  | write text => some text
  | _ => none

/-- The texts whose writes were started, in order. -/
def written (s : Session) : List String :=
  s.journal.filterMap Event.written?

@[simp] theorem messages_message (frames : List Frame) (text : String) :
    messages (frames ++ [.message text]) = messages frames ++ [text] := by
  simp [messages, Frame.message?]

@[simp] theorem messages_close (frames : List Frame) (text : String) :
    messages (frames ++ [.close text]) = messages frames := by
  simp [messages, Frame.message?]

theorem written_of_log {s t : Session} (h : t.log = s.log) : t.written = s.written :=
  filterMap_journal_of_log Event.written? h

theorem written_of_cons {s t : Session} {e : Event} (h : t.log = e :: s.log) :
    t.written = s.written ++ e.written?.toList :=
  filterMap_journal_of_cons Event.written? h

theorem written_of_silent {s t : Session} {e : Event} (h : t.log = e :: s.log)
    (he : e.written? = none) : t.written = s.written := by
  rw [written_of_cons h, he]
  exact List.append_nil _

theorem written_aside {s t : Session} (ha : Aside s t) : t.written = s.written := by
  rcases ha.log with hl | ⟨stage, x, b, hl⟩
  · exact written_of_log hl
  · exact written_of_silent hl rfl

/-! ### Places from which frames are written -/

/-- Frames may still be handed to the sink. -/
def Position.mayWrite : Position → Bool
  | engine | spawned | preparing | handshaking | awaiting | opened => true
  | active _ _ (.asking) | active _ _ (.waiting _) | active _ _ (.writing _)
  | active _ _ (.flushing) | active _ _ (.announcing _) => true
  | active _ _ (.announced) | active _ _ (.closing) | active _ _ (.failing _)
  | active _ _ (.done) => false
  | neverRun | refusing _ | discarding | finishing _ | concluding _ _ | .over => false

/-- The message that was taken out of the outbox and not yet handed to the sink. -/
def Position.inFlight : Position → List String
  | active _ _ (.writing message) => [message]
  | _ => []

/-- From one place to another where the same message is in flight, if frames may still be
written. -/
structure Position.Keeps (p q : Position) : Prop where
  mayWrite : q.mayWrite = true → p.mayWrite = true
  inFlight : q.mayWrite = true → q.inFlight = p.inFlight

theorem Position.Keeps.refl (p : Position) : p.Keeps p :=
  ⟨id, fun _ => rfl⟩

/-- A place from which nothing is written any more. -/
theorem Position.Keeps.of_past {p q : Position} (h : q.mayWrite = false) : p.Keeps q := by
  refine ⟨?_, ?_⟩ <;>
    · intro hq
      rw [h] at hq
      cases hq

theorem Position.inFlight_of_past {p : Position} (h : p.mayWrite = false) : p.inFlight = [] := by
  unfold inFlight
  split
  · cases h
  · rfl

/-! ### What a move does to messages -/

/-- What a move does to messages, with the message that is accepted in it and the frame that is
handed to the sink. -/
inductive Passes (s t : Session) : Option String → Option Frame → Prop
  /-- No message moves, but one may be accepted. -/
  | keeps {a} (position : s.position.Keeps t.position)
      (values : t.progress.verdict = none → t.position.mayWrite = true →
        t.outbox.values = s.outbox.values ++ a.toList)
      (written : t.written = s.written) : Passes s t a none
  /-- The oldest message is taken out of the outbox. -/
  | takes {rx k message} (hp : s.position = .active .transmit rx (.waiting k))
      (position : t.position = .active .transmit rx (.writing message))
      (verdict : s.progress.verdict = none) (values : s.outbox.values = message :: t.outbox.values)
      (written : t.written = s.written) : Passes s t none none
  /-- The message in flight is handed to the sink, which may refuse it. -/
  | hands {rx message} (hp : s.position = .active .transmit rx (.writing message))
      (inFlight : t.position.inFlight = [])
      (values : t.progress.verdict = none → t.outbox.values = s.outbox.values)
      (written : t.written = s.written ++ [message] ∨
        t.written = s.written ∧ t.position.mayWrite = false) :
      Passes s t none (some (.message message))
  /-- The close frame is handed to the sink, which may refuse it. -/
  | announces {rx text} (hp : s.position = .active .transmit rx (.announcing text))
      (past : t.position.mayWrite = false)
      (written : t.written = s.written ++ [text] ∨ t.written = s.written) :
      Passes s t none (some (.close text))

/-- What is written is a matter of the transmit region alone. -/
theorem keeps_active (turn turn' : Turn) (rx rx' : Receiving) (tx : Transmitting) :
    (Position.active turn rx tx).Keeps (.active turn' rx' tx) := by
  refine ⟨?_, ?_⟩ <;> intro hw <;> cases tx <;> first | rfl | exact hw

theorem Goes.keeps {s : Session} {p : Position} (h : Goes s p) :
    s.position.frame? = none ∧ s.position.Keeps p := by
  cases h with
  | resumed hp hh => rw [hp]; exact ⟨rfl, fun _ => rfl, fun _ => rfl⟩
  | hasRead hp => rw [hp]; exact ⟨rfl, keeps_active _ _ _ _ _⟩
  | interrupted hp hr => rw [hp]; exact ⟨rfl, keeps_active _ _ _ _ _⟩
  | ranDry hp hr hn he hst => rw [hp]; exact ⟨rfl, keeps_active _ _ _ _ _⟩
  | stopped hp hv => rw [hp]; exact ⟨rfl, .of_past rfl⟩
  | unclosable hp hf => rw [hp]; exact ⟨rfl, .of_past rfl⟩
  | hasAnnounced hp hf hh => rw [hp]; exact ⟨rfl, .of_past rfl⟩
  | bothDone hp => rw [hp]; exact ⟨rfl, .of_past rfl⟩

theorem Sleeps.keeps {s : Session} {p : Position} (h : Sleeps s p) :
    s.position.frame? = none ∧ s.position.Keeps p := by
  cases h with
  | discarding hp hf hh => rw [hp]; exact ⟨rfl, .refl _⟩
  | flushing hp hf hh => rw [hp]; exact ⟨rfl, keeps_active _ _ _ _ _⟩
  | announced hp hf hh => rw [hp]; exact ⟨rfl, keeps_active _ _ _ _ _⟩
  | closing hp hf hh => rw [hp]; exact ⟨rfl, keeps_active _ _ _ _ _⟩

theorem Shuts.keeps {s : Session} {p : Position} (h : Shuts s p) :
    s.position.frame? = none ∧ s.position.Keeps p := by
  cases h with
  | discarding hp hf hh => rw [hp]; exact ⟨rfl, .of_past rfl⟩
  | closing hp hf hh => rw [hp]; exact ⟨rfl, .of_past rfl⟩

theorem inFlight_parting (s : Session) {rx : Receiving} :
    (Position.active .transmit rx s.parting).inFlight = [] := by
  unfold parting
  split
  · split <;> rfl
  · rfl

namespace Passes

variable {s t : Session}

/-- A failure ends the writing, or it concerns the receive region. -/
theorem of_fault {e : Ending} (hf : s.fault? = some e)
    (position : t.position = s.position.reporting e ∨ t.position = s.position.dismissed)
    (verdict : t.progress.verdict ≠ none) (written : t.written = s.written) :
    Passes s t none s.position.frame? := by
  have novalues : t.progress.verdict = none → t.position.mayWrite = true →
      t.outbox.values = s.outbox.values ++ (none : Option String).toList :=
    fun hv => absurd hv verdict
  rcases Sound.position_of_fault hf with hp | ⟨tx, hp⟩ | ⟨rx, tx, hp, -⟩
  · rw [hp] at position ⊢
    refine .keeps ?_ novalues written
    rw [hp]
    rcases position with ht | ht <;> rw [ht] <;> exact .of_past rfl
  · rw [hp] at position ⊢
    refine .keeps ?_ novalues written
    rw [hp]
    rcases position with ht | ht <;> rw [ht] <;> exact keeps_active _ _ _ _ _
  · have hpast : t.position.mayWrite = false := by
      rw [hp] at position
      rcases position with ht | ht <;> rw [ht] <;> rfl
    cases tx with
    | writing message =>
      have hframe : s.position.frame? = some (.message message) := by rw [hp]; rfl
      rw [hframe]
      exact .hands hp (Position.inFlight_of_past hpast) (fun hv => absurd hv verdict)
        (.inr ⟨written, hpast⟩)
    | announcing text =>
      have hframe : s.position.frame? = some (.close text) := by rw [hp]; rfl
      rw [hframe]
      exact .announces hp hpast (.inr written)
    | _ =>
      rw [hp]
      exact .keeps (.of_past hpast) novalues written

/-- The transmit region takes a message out of the outbox. -/
theorem of_takes {rx : Receiving} {k : Nat} {message : String}
    {outbox : Handoff.Queue String Empty Unit} (hs : Sound s)
    (hp : s.position = .active .transmit rx (.waiting k))
    (ho : s.outbox.poll k () = (.delivered (.value message), outbox))
    (position : t.position = .active .transmit rx (.writing message)) (houtbox : t.outbox = outbox)
    (written : t.written = s.written) : Passes s t none none := by
  obtain ⟨d, r, hd, hpolled, rfl⟩ | ⟨-, hpolled, -⟩ := hs.poll_waiting hp ho
  · cases hpolled
    obtain ⟨-, hd', -⟩ | ⟨-, a, rest, hvalues, ha, rfl⟩ := Handoff.Queue.of_nextResult? hd
    · cases hd'
    · cases ha
      -- the buffer holds something, so the session is active and nothing has ended it
      have hopen : ¬ (s.stage = .closing ∨ s.stage = .closed) := by
        intro hst
        have hempty := hs.emptied hst
        rw [hvalues] at hempty
        cases hempty
      have hf := hs.fits
      rw [hp] at hf
      have hactive : s.progress.stage = .active := by
        cases hst : s.progress.stage with
        | active => rfl
        | notStarted => exact absurd hst hf.1.1
        | handshaking => exact absurd hst hf.1.2.1
        | closing => exact absurd (.inl hst) hopen
        | closed => exact absurd (.inr hst) hopen
      refine .takes hp position (hs.coherent.none_of_active hactive) ?_ written
      rw [houtbox]
      exact hvalues
  · cases hpolled

theorem of_advances (hs : Sound s) (hr : s.running = true) (ha : Advances s t) :
    Passes s t none s.position.frame? := by
  have quiet : ∀ {p : Position}, s.position.frame? = none ∧ s.position.Keeps p →
    t.position = p → t.outbox.values = s.outbox.values → t.written = s.written →
      Passes s t none s.position.frame? := by
    rintro p ⟨hframe, hkeeps⟩ hp hvalues hwritten
    rw [hframe]
    rw [← hp] at hkeeps
    refine .keeps hkeeps (fun _ _ => ?_) hwritten
    rw [hvalues]
    exact (List.append_nil _).symm
  have past : s.position.frame? = none → t.position.mayWrite = false → t.written = s.written →
      Passes s t none s.position.frame? := by
    intro hframe hpast hwritten
    rw [hframe]
    refine .keeps (.of_past hpast) ?_ hwritten
    intro _ hw
    rw [hpast] at hw
    cases hw
  cases ha with
  | rests hp =>
    have hcan := hs.runs hr
    rcases hp with hp | hp | hp <;> rw [hp] at hcan <;> exact absurd hcan id
  | goes hg => exact quiet hg.keeps rfl rfl rfl
  | sleeps hg => exact quiet hg.keeps rfl rfl rfl
  | shuts hg =>
    rw [wireClosed_eq] at quiet ⊢
    exact quiet hg.keeps rfl rfl (written_of_silent rfl rfl)
  | prepares hp hv =>
    refine quiet ?_ rfl rfl rfl
    rw [hp]
    exact ⟨rfl, fun _ => rfl, fun _ => rfl⟩
  | begins hp hh =>
    refine quiet ?_ rfl rfl (written_of_silent rfl rfl)
    rw [hp]
    exact ⟨rfl, fun _ => rfl, fun _ => rfl⟩
  | abandons hp hh =>
    refine past ?_ rfl (written_of_silent rfl rfl)
    rcases hp with hp | hp | ⟨hp, -⟩ <;> rw [hp] <;> rfl
  | hopes hp ho hh =>
    refine quiet ?_ rfl rfl rfl
    rw [hp]
    exact ⟨rfl, fun _ => rfl, fun _ => rfl⟩
  | opens hp ho =>
    refine quiet ?_ rfl rfl rfl
    rw [hp]
    exact ⟨rfl, fun _ => rfl, fun _ => rfl⟩
  | @fails e hf link =>
    refine .of_fault hf ?_ ?_ ?_
    · rw [fail_eq]
      by_cases hv : s.progress.verdict = none
      · exact .inl (if_pos hv)
      · exact .inr (if_neg hv)
    · rw [fail_eq]
      nofun
    · by_cases hv : s.progress.verdict = none
      · refine written_of_silent (e := .error e) ?_ rfl
        rw [fail_eq]
        exact if_pos hv
      · refine written_of_log ?_
        rw [fail_eq]
        exact if_neg hv
  | records hp =>
    refine quiet ⟨?_, ?_⟩ rfl rfl rfl
    · unfold Position.reported? at hp
      split at hp <;> simp_all [Position.frame?]
    · cases hpos : s.position with
      | refusing e => exact .of_past rfl
      | active turn rx tx =>
        cases turn with
        | receive => exact keeps_active _ _ _ _ _
        | transmit => exact .of_past rfl
      | _ => rw [hpos] at hp; cases hp
  | turnsAway hp hv => exact past (by rw [hp]; rfl) rfl rfl
  | connects hp hv =>
    refine quiet ?_ rfl rfl (written_of_silent rfl rfl)
    rw [hp]
    exact ⟨rfl, fun _ => rfl, fun _ => rfl⟩
  | hands hp hn hl =>
    refine quiet ⟨?_, .refl _⟩ rfl rfl (written_of_silent rfl rfl)
    rw [hp]
    rfl
  | listens hp hn hl he =>
    refine quiet ?_ rfl rfl rfl
    rw [hp]
    exact ⟨rfl, keeps_active _ _ _ _ _⟩
  | asks hp hw =>
    obtain ⟨-, -, -, -, hvalues, -⟩ := Handoff.Queue.of_wait? (fun _ => rfl) hw
    rw [passOn_eq] at quiet ⊢
    refine quiet ?_ rfl hvalues rfl
    rw [hp]
    exact ⟨rfl, fun _ => rfl, fun _ => rfl⟩
  | isDenied hp hw => exact absurd hw (hs.wait?_ne_none hp)
  | takes hp ho =>
    have hframe : s.position.frame? = none := by rw [hp]; rfl
    rw [hframe]
    exact .of_takes hs hp ho rfl rfl rfl
  | parts hp ho hd =>
    obtain ⟨-, rfl⟩ := hs.ending_of_parts hp ho hd
    refine quiet ?_ rfl rfl rfl
    rw [hp]
    exact ⟨rfl, fun _ => rfl, fun _ => inFlight_parting s⟩
  | idles hp ho =>
    obtain ⟨d, r, -, hpolled, -⟩ | ⟨-, -, w, hw, rfl⟩ := hs.poll_waiting hp ho
    · cases hpolled
    · refine quiet ?_ rfl rfl rfl
      rw [hp]
      exact ⟨rfl, keeps_active _ _ _ _ _⟩
  | @writes rx message hp hl =>
    have hframe : s.position.frame? = some (.message message) := by rw [hp]; rfl
    rw [hframe]
    exact .hands hp rfl (fun _ => rfl) (.inl (written_of_cons (e := .write message) rfl))
  | hasWritten hp hl hh =>
    refine quiet ?_ rfl rfl rfl
    rw [hp]
    exact ⟨rfl, fun _ => rfl, fun _ => rfl⟩
  | @announces rx frame hp hl =>
    have hframe : s.position.frame? = some (.close frame) := by rw [hp]; rfl
    rw [hframe]
    exact .announces hp rfl (.inl (written_of_cons (e := .write frame) rfl))
  | lingers hp hl => exact past (by rw [hp]; rfl) rfl rfl
  | concludes hp =>
    refine past (by rw [hp]; rfl) (by rw [conclude_eq]; rfl) ?_
    refine written_of_silent (e := .closed s.reason) ?_ rfl
    rw [conclude_eq]
  | finishes hp =>
    rw [finish_eq, unhookEngine_eq] at past ⊢
    exact past (by rw [hp]; rfl) rfl rfl

/-! ### Deeds -/

/-- The future stays where it is, and no message is accepted. -/
theorem of_same (position : t.position = s.position)
    (values : t.progress.verdict = none → t.outbox.values = s.outbox.values)
    (written : t.written = s.written) : Passes s t none none := by
  refine .keeps ?_ ?_ written
  · rw [position]
    exact .refl _
  · intro hv _
    rw [values hv]
    exact (List.append_nil _).symm

/-- The future goes where nothing is written any more. -/
theorem of_past (past : t.position.mayWrite = false) (written : t.written = s.written) :
    Passes s t none none := by
  refine .keeps (.of_past past) ?_ written
  intro _ hw
  rw [past] at hw
  cases hw

/-- A message that is accepted is buffered behind all others; any other is dropped. -/
theorem of_send {a : Act} {message : String} (hs : Sound s) (ha : a.sent? = some message) :
    Passes s (s.send message) (s.accepts? a) none := by
  rw [send_eq]
  by_cases hv : s.progress.verdict = none
  · have hopen : s.progress.isEnding = false := by
      rcases hs.coherent.active_of_none hv with hst | hst | hst <;>
        simp [Progress.isEnding, hv, hst]
    have haccepts : s.accepts? a = some message := by rw [accepts?, if_pos hv, ha]
    rw [haccepts, if_neg (by rw [hopen]; exact Bool.false_ne_true)]
    refine .keeps (.refl _) ?_ rfl
    intro _ _
    exact Handoff.Queue.values_push _ _
  · have haccepts : s.accepts? a = none := if_neg hv
    have hending : s.progress.isEnding = true := by
      obtain ⟨v, hsome⟩ := Option.ne_none_iff_exists'.mp hv
      simp [Progress.isEnding, hsome]
    rw [haccepts, if_pos hending]
    exact .of_same rfl (fun _ => rfl) rfl

theorem of_tearDown (s : Session) (cause : Panic) : Passes s (s.tearDown cause) none none := by
  cases hr : s.running with
  | false =>
    rw [tearDown_of_not_running hr]
    exact .of_same rfl (fun _ => rfl) rfl
  | true =>
    have ht := tearDown_of_running hr cause
    refine .of_past ?_ ?_
    · rw [ht.position]
      rfl
    · rcases ht.log with hl | hl
      · exact written_of_log hl
      · exact written_of_silent hl rfl

theorem of_act (hs : Sound s) (a : Act) : Passes s (s.act a) (s.accepts? a) none := by
  have unsent : a.sent? = none → s.accepts? a = none := by
    intro hsent
    rw [accepts?, hsent, ite_self]
  obtain ⟨message, hsent, ha⟩ | ⟨message, rfl, ha⟩ | ⟨hsent, ha⟩ := act_cases s a
  · rw [ha]
    exact .of_send hs hsent
  · rw [ha, unsent rfl]
    exact .of_tearDown s _
  · rw [unsent hsent]
    refine .of_same ha.position ?_ (written_aside ha)
    intro _
    rw [ha.outbox]

theorem of_onStop (s : Session) : Passes s s.onStop none none := by
  have hverdict : s.onStop.progress.verdict ≠ none := by
    rw [progress_onStop]
    nofun
  refine .of_same ?_ (fun hv => absurd hv hverdict) ?_
  · rw [onStop_eq]
  · rw [onStop_eq]
    rfl

/-- What is left to do does not matter. -/
theorem of_doing {rest : List Deed} {a : Option String} {f : Option Frame}
    (h : Passes { s with doing := rest } t a f) : Passes s t a f := by
  cases h with
  | keeps position values written => exact .keeps position values written
  | takes hp position verdict values written => exact .takes hp position verdict values written
  | hands hp inFlight values written => exact .hands hp inFlight values written
  | announces hp past written => exact .announces hp past written

theorem of_tick (hs : Sound s) :
    Passes s (s.move .tick) (s.acceptance? .tick) (s.frame? .tick) := by
  cases hd : s.doing with
  | cons d rest =>
    have hframe : s.frame? .tick = none := by
      rw [frame?, hd]
      rfl
    rw [tick_of_cons hd, hframe]
    cases d with
    | act a =>
      have haccepts : s.acceptance? .tick = s.accepts? a := by rw [acceptance?, hd]
      rw [haccepts]
      have hs' : Sound { s with doing := rest } := hs.aside (aside_doing s rest)
      exact (of_act hs' a).of_doing
    | engineStop =>
      have haccepts : s.acceptance? .tick = none := by rw [acceptance?, hd]
      rw [haccepts]
      exact (of_onStop _).of_doing
    | heard id =>
      have haccepts : s.acceptance? .tick = none := by rw [acceptance?, hd]
      rw [haccepts]
      exact .of_same rfl (fun _ => rfl) rfl
  | nil =>
    have haccepts : s.acceptance? .tick = none := by rw [acceptance?, hd]
    rw [haccepts]
    cases hr : s.running with
    | true =>
      have hframe : s.frame? .tick = s.position.frame? := by
        rw [frame?, hd, hr]
        rfl
      rw [tick_of_running hd hr, hframe]
      exact .of_advances hs hr (Session.advances s)
    | false =>
      have hframe : s.frame? .tick = none := by
        rw [frame?, hd, hr]
        rfl
      rw [tick_of_quiet hd hr, hframe]
      exact .of_same rfl (fun _ => rfl) rfl

/-- **Every move accepts what it accepts, hands over what it hands over, and moves no other
message.** -/
theorem of_move (hs : Sound s) (m : Move) :
    Passes s (s.move m) (s.acceptance? m) (s.frame? m) := by
  by_cases htick : m = .tick
  · rw [htick]
    exact of_tick hs
  · have hframe : s.frame? m = none := by
      cases m with
      | tick => exact absurd rfl htick
      | _ => rfl
    rw [hframe]
    by_cases hact : ∃ a, m = .act a
    · obtain ⟨a, rfl⟩ := hact
      exact of_act hs a
    · have haccepts : s.acceptance? m = none := by
        cases m with
        | tick => exact absurd rfl htick
        | act a => exact absurd ⟨a, rfl⟩ hact
        | _ => rfl
      rw [haccepts]
      have hm := moves s m
      generalize s.move m = t at hm ⊢
      cases hm with
      | stays => exact .of_same rfl (fun _ => rfl) rfl
      | acts a => exact absurd ⟨a, rfl⟩ hact
      | does hd => exact absurd rfl htick
      | advances hd hr ha => exact absurd rfl htick
      | hands hp hq =>
        refine .keeps ?_ (fun _ _ => (List.append_nil _).symm) rfl
        rw [hp]
        exact ⟨fun _ => rfl, fun _ => rfl⟩
      | refuses hp ha => exact .of_past rfl rfl
      | resumes hr hp hq => exact .of_same rfl (fun _ => rfl) rfl
      | misses hr hq hp => exact .of_same rfl (fun _ => rfl) rfl
      | drops hr hp =>
        rw [releaseOperations_eq]
        refine .of_past rfl ?_
        show Session.written { s with log := s.lastWords ++ s.log } = _
        unfold lastWords
        split <;> first | rfl | exact written_of_silent rfl rfl
      | disowns hp =>
        rw [unhookEngine_eq]
        exact .of_past rfl rfl
      | shuts => exact .of_same rfl (fun _ => rfl) rfl

/-- Where nothing is written any more, nothing ever is. -/
theorem past {a : Option String} {f : Option Frame} (h : Passes s t a f)
    (hs : s.position.mayWrite = false) : t.position.mayWrite = false ∧ f = none := by
  cases h with
  | keeps position values written =>
    refine ⟨?_, rfl⟩
    by_contra hw
    rw [position.mayWrite (by simpa using hw)] at hs
    cases hs
  | takes hp position verdict values written =>
    rw [hp] at hs
    cases hs
  | hands hp inFlight values written =>
    rw [hp] at hs
    cases hs
  | announces hp past written =>
    rw [hp] at hs
    cases hs

end Passes

/-! ### What was handed on, what is in flight, and what is buffered -/

/-- How the frames that were handed to the sink relate to the messages that were accepted, and to
the writes that were started. -/
structure Writes (s : Session) (accepted : List String) (frames : List Frame) : Prop where
  part : messages frames ++ s.position.inFlight <+: accepted
  /-- Messages come first, and a close frame is the last. -/
  shape : ∃ closing : Option String,
    frames = (messages frames).map .message ++ closing.toList.map .close ∧
      (closing ≠ none → s.position.mayWrite = false)
  /-- Nothing is missing before the end. -/
  whole : s.progress.verdict = none → s.position.mayWrite = true →
    messages frames ++ s.position.inFlight ++ s.outbox.values = accepted
  /-- Only the last frame may have been refused. -/
  started : frames.map Frame.text = s.written ∨
    s.position.mayWrite = false ∧ ∃ last, frames.map Frame.text = s.written ++ [last]

namespace Writes

variable {s t : Session} {A : List String} {F : List Frame}

/-- Before the close frame there are only messages. -/
theorem frames_eq (h : Writes s A F) (hw : s.position.mayWrite = true) :
    F = (messages F).map .message := by
  obtain ⟨closing, hshape, hpast⟩ := h.shape
  cases closing with
  | none => rwa [Option.toList_none, List.map_nil, List.append_nil] at hshape
  | some text =>
    rw [hpast nofun] at hw
    cases hw

/-- As long as frames may be written, none was refused. -/
theorem started_eq (h : Writes s A F) (hw : s.position.mayWrite = true) :
    F.map Frame.text = s.written := by
  rcases h.started with heq | ⟨hpast, -⟩
  · exact heq
  · rw [hpast] at hw
    cases hw

theorem keeps {a : Option String} (h : Writes s A F) (position : s.position.Keeps t.position)
    (verdict : t.progress.verdict = none → s.progress.verdict = none)
    (values : t.progress.verdict = none → t.position.mayWrite = true →
      t.outbox.values = s.outbox.values ++ a.toList)
    (written : t.written = s.written) : Writes t (A ++ a.toList) F := by
  have past : s.position.mayWrite = false → t.position.mayWrite = false := by
    intro hs
    by_contra hw
    rw [position.mayWrite (by simpa using hw)] at hs
    cases hs
  refine ⟨?_, ?_, ?_, ?_⟩
  · refine List.IsPrefix.trans ?_ (List.prefix_append A _)
    by_cases hw : t.position.mayWrite = true
    · rw [position.inFlight hw]
      exact h.part
    · rw [Position.inFlight_of_past (by simpa using hw), List.append_nil]
      exact (List.prefix_append _ _).trans h.part
  · obtain ⟨closing, hshape, hpast⟩ := h.shape
    exact ⟨closing, hshape, fun hc => past (hpast hc)⟩
  · intro hv hw
    rw [values hv hw, position.inFlight hw, ← List.append_assoc,
      h.whole (verdict hv) (position.mayWrite hw)]
  · rw [written]
    rcases h.started with heq | ⟨hpast, hlast⟩
    · exact .inl heq
    · exact .inr ⟨past hpast, hlast⟩

theorem takes {rx : Receiving} {k : Nat} {message : String} (h : Writes s A F)
    (hp : s.position = .active .transmit rx (.waiting k))
    (position : t.position = .active .transmit rx (.writing message))
    (verdict : s.progress.verdict = none) (values : s.outbox.values = message :: t.outbox.values)
    (written : t.written = s.written) : Writes t A F := by
  have hw : s.position.mayWrite = true := by rw [hp]; rfl
  have hflight : s.position.inFlight = [] := by rw [hp]; rfl
  have hflight' : t.position.inFlight = [message] := by rw [position]; rfl
  have hwhole : messages F ++ [message] ++ t.outbox.values = A := by
    rw [← h.whole verdict hw, hflight, values, List.append_nil, List.append_assoc]
    rfl
  refine ⟨?_, ⟨none, ?_, nofun⟩, ?_, ?_⟩
  · rw [hflight', ← hwhole]
    exact List.prefix_append _ _
  · rw [Option.toList_none, List.map_nil, List.append_nil]
    exact h.frames_eq hw
  · intro _ _
    rw [hflight']
    exact hwhole
  · rw [written]
    exact .inl (h.started_eq hw)

theorem hands {rx : Receiving} {message : String} (h : Writes s A F)
    (hp : s.position = .active .transmit rx (.writing message))
    (inFlight : t.position.inFlight = [])
    (verdict : t.progress.verdict = none → s.progress.verdict = none)
    (values : t.progress.verdict = none → t.outbox.values = s.outbox.values)
    (written : t.written = s.written ++ [message] ∨
      t.written = s.written ∧ t.position.mayWrite = false) :
    Writes t A (F ++ [.message message]) := by
  have hw : s.position.mayWrite = true := by rw [hp]; rfl
  have hflight : s.position.inFlight = [message] := by rw [hp]; rfl
  refine ⟨?_, ⟨none, ?_, nofun⟩, ?_, ?_⟩
  · rw [messages_message, inFlight, List.append_nil, ← hflight]
    exact h.part
  · rw [messages_message, List.map_append, Option.toList_none, List.map_nil, List.append_nil,
      ← h.frames_eq hw]
    rfl
  · intro hv _
    rw [messages_message, inFlight, List.append_nil, values hv, ← hflight]
    exact h.whole (verdict hv) hw
  · rw [List.map_append, h.started_eq hw]
    rcases written with hwr | ⟨hwr, hpast⟩
    · rw [hwr]
      exact .inl rfl
    · rw [hwr]
      exact .inr ⟨hpast, message, rfl⟩

theorem announces {rx : Receiving} {text : String} (h : Writes s A F)
    (hp : s.position = .active .transmit rx (.announcing text))
    (past : t.position.mayWrite = false)
    (written : t.written = s.written ++ [text] ∨ t.written = s.written) :
    Writes t A (F ++ [.close text]) := by
  have hw : s.position.mayWrite = true := by rw [hp]; rfl
  refine ⟨?_, ⟨some text, ?_, fun _ => past⟩, ?_, ?_⟩
  · rw [messages_close, Position.inFlight_of_past past, List.append_nil]
    exact (List.prefix_append _ _).trans h.part
  · rw [messages_close, ← h.frames_eq hw]
    rfl
  · intro _ hw'
    rw [past] at hw'
    cases hw'
  · rw [List.map_append, h.started_eq hw]
    rcases written with hwr | hwr
    · rw [hwr]
      exact .inl rfl
    · rw [hwr]
      exact .inr ⟨past, text, rfl⟩

/-- Every move extends the histories by what it accepts and hands over. -/
theorem step {a : Option String} {f : Option Frame} (h : Writes s A F) (hp : Passes s t a f)
    (verdict : t.progress.verdict = none → s.progress.verdict = none) :
    Writes t (A ++ a.toList) (F ++ f.toList) := by
  cases hp with
  | keeps position values written =>
    rw [Option.toList_none, List.append_nil]
    exact h.keeps position verdict values written
  | takes hp position hv values written =>
    rw [Option.toList_none, Option.toList_none, List.append_nil, List.append_nil]
    exact h.takes hp position hv values written
  | hands hp inFlight values written =>
    rw [Option.toList_none, List.append_nil]
    exact h.hands hp inFlight verdict values written
  | announces hp past written =>
    rw [Option.toList_none, List.append_nil]
    exact h.announces hp past written

end Writes

/-! ### Every run -/

theorem verdict_none_of_move {s : Session} {m : Move} (h : (s.move m).progress.verdict = none) :
    s.progress.verdict = none := by
  by_contra hn
  obtain ⟨v, hsome⟩ := Option.ne_none_iff_exists'.mp hn
  rw [verdict_move hsome] at h
  cases h

theorem writes_after (o : Origin) (ms : List Move) :
    Writes (o.session.after ms) (o.session.accepted ms) (o.session.handed ms) := by
  refine after_induction
    (P := fun ms s => Writes s (o.session.accepted ms) (o.session.handed ms)) ?_ ?_ ms
  · exact ⟨List.prefix_rfl, ⟨none, rfl, nofun⟩, fun _ _ => rfl, .inl rfl⟩
  · intro ms m h
    rw [accepted, handed, seen_concat, seen_concat]
    exact h.step (.of_move (sound_after o ms) m) verdict_none_of_move

/-- Once there is a verdict no message is accepted. -/
theorem accepted_eq_nil {s : Session} {v : Verdict} (h : s.progress.verdict = some v)
    (ms : List Move) : s.accepted ms = [] := by
  induction ms generalizing s with
  | nil => rfl
  | cons m ms ih =>
    have hnone : s.acceptance? m = none := by
      have haccepts : ∀ a, s.accepts? a = none := by
        intro a
        rw [accepts?, h]
        rfl
      unfold acceptance?
      split
      · exact haccepts _
      · split
        · exact haccepts _
        · rfl
      · rfl
    show (s.acceptance? m).toList ++ (s.move m).accepted ms = []
    rw [hnone, ih (verdict_move h m)]
    rfl

/-- Once nothing is written any more, no frame is handed to the sink. -/
theorem handed_eq_nil {s : Session} (hs : Sound s) (h : s.position.mayWrite = false)
    (ms : List Move) : s.handed ms = [] := by
  induction ms generalizing s with
  | nil => rfl
  | cons m ms ih =>
    obtain ⟨hpast, hframe⟩ := (Passes.of_move hs m).past h
    show (s.frame? m).toList ++ (s.move m).handed ms = []
    rw [hframe, ih (hs.move m) hpast]
    rfl

/-- **What is handed to the sink is a first part of the accepted messages, in their order, and then
perhaps a close frame, after which nothing is handed over any more.**

The writes that were started are these frames, but for the last one if the sink refused it.  A
message sent after a verdict was entered, or after a stop has returned, is not among them. -/
theorem frames_of_run (o : Origin) (ms : List Move) :
    (∃ (sent : List String) (closing : Option String),
      o.session.handed ms = sent.map .message ++ closing.toList.map .close ∧
        sent <+: o.session.accepted ms) ∧
      ((o.session.handed ms).map Frame.text = (o.session.after ms).written ∨
        ∃ last, (o.session.handed ms).map Frame.text = (o.session.after ms).written ++ [last]) ∧
      ∀ ns, ((o.session.after ms).progress.verdict ≠ none ∨
          (o.session.after ms).panicked = none ∧
          (o.session.after ms).stopSignal.isFired = true ∧
            .engineStop ∉ (o.session.after ms).doing) →
        ∃ (sent : List String) (closing : Option String),
          o.session.handed (ms ++ ns) = sent.map .message ++ closing.toList.map .close ∧
            sent <+: o.session.accepted ms := by
  have parts : ∀ ks, ∃ (sent : List String) (closing : Option String),
      o.session.handed ks = sent.map .message ++ closing.toList.map .close ∧
        sent <+: o.session.accepted ks := by
    intro ks
    have h := writes_after o ks
    obtain ⟨closing, hshape, -⟩ := h.shape
    exact ⟨_, closing, hshape, (List.prefix_append _ _).trans h.part⟩
  refine ⟨parts ms, ?_, ?_⟩
  · rcases (writes_after o ms).started with heq | ⟨-, hlast⟩
    · exact .inl heq
    · exact .inr hlast
  · intro ns hended
    by_cases hv : (o.session.after ms).progress.verdict = none
    · -- the engine was never handed over, and nothing is ever written
      have hpast : (o.session.after ms).position.mayWrite = false := by
        rcases hended with hn | ⟨hcalm, hfired, hdoing⟩
        · exact absurd hv hn
        · by_cases hp : (o.session.after ms).position = .neverRun
          · rw [hp]
            rfl
          · exact absurd hv (stop_enters_verdict hcalm hfired hdoing hp)
      have hnone := handed_eq_nil (sound_after o ms) hpast ns
      have happend : o.session.handed (ms ++ ns) = o.session.handed ms := by
        rw [handed, seen_append]
        show o.session.handed ms ++ (o.session.after ms).handed ns = _
        rw [hnone, List.append_nil]
      rw [happend]
      exact parts ms
    · obtain ⟨v, hsome⟩ := Option.ne_none_iff_exists'.mp hv
      have happend : o.session.accepted (ms ++ ns) = o.session.accepted ms := by
        rw [accepted, seen_append]
        show o.session.accepted ms ++ (o.session.after ms).accepted ns = _
        rw [accepted_eq_nil hsome, List.append_nil]
      rw [← happend]
      exact parts (ms ++ ns)

end Dialogue.Session
