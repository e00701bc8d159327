/-
A session never hangs on a wake-up of its own making.

When the future of a session is left until it is woken, somebody has to wake it.  The connection
does, if the operation that waits listens to it; the outbox does, if the waker of the transmit
region is stored there; and whoever ends an operation does.  `Attentive` says that what the future
waits for is of this kind.  It is established when the future is left, and everything that could
spoil it later puts the task in line.  So the invariant is that the task is in line or the future is
attentive.

Within a poll the receive region has its turn before the transmit region, and what it waits for must
still be so when the poll ends.  That is why attention is asked of it already during the transmit
region's turn.

A stop of an active session reaches the transmit region through the outbox.  `Armed` says that this
word is not lost: from the moment the session closes, the outbox holds it until the transmit region
has taken it.
-/
import Dialogue.Proofs.Session.Sound

namespace Dialogue.Session

/-! ### What the future waits for -/

/-- The handshake waits for the connection, and can be interrupted. -/
structure AwaitsHandshake (s : Session) : Prop where
  outcome : s.link.outcome = none
  listening : s.link.listening = true
  interrupt : s.progress.handshake = .ready true

/-- The receive region waits for the connection, and can be interrupted. -/
structure AwaitsFrame (s : Session) : Prop where
  unread : s.link.unread = []
  ended : s.link.ended = false
  listening : s.link.listening = true
  interrupt : s.progress.receive = .ready true

/-- A write is in flight. -/
structure AwaitsFlush (s : Session) : Prop where
  fault : s.link.flushFault = none
  held : s.link.held = true
  listening : s.link.listening = true

/-- The closing of the sink is in flight. -/
structure AwaitsClose (s : Session) : Prop where
  fault : s.link.closeFault = none
  held : s.link.closeHeld = true
  listening : s.link.listening = true

/-- The outbox has nothing for the transmit region, and its waker is stored there. -/
structure AwaitsOutbox (s : Session) (t : Nat) : Prop where
  values : s.outbox.values = []
  cancelled : s.outbox.cancelled = false
  waker : s.outbox.waiting = .future t (some ())

/-- The transmit region has an operation of the connection in flight. -/
def IsWriting (s : Session) : Transmitting → Prop
  | .flushing | .announced => s.AwaitsFlush
  | .closing => s.AwaitsClose
  | _ => False

/-- Whatever the transmit region waits for will wake it. -/
def Heeds (s : Session) : Transmitting → Prop
  | .waiting t => s.AwaitsOutbox t
  | .done => True
  | tx => s.IsWriting tx

/-- Whatever the future waits for will wake the task. -/
def Attentive (s : Session) : Prop :=
  match s.position with
  | .handshaking => s.running = false → s.AwaitsHandshake
  | .discarding => s.running = false → s.AwaitsClose
  | .active .receive rx tx => s.running = false →
      (rx = .reading → s.AwaitsFrame) ∧ s.Heeds tx ∧ (rx = .done → tx ≠ .done)
  | .active .transmit rx _ => rx = .reading → s.AwaitsFrame
  | _ => True

/-- The task is in line, or whatever the future waits for will put it there. -/
def Wakeful (s : Session) : Prop :=
  s.queued = true ∨ s.Attentive

variable {s t : Session}

/-! ### The word that the session closes -/

/-- The transmit region has not learned that the session ends. -/
def Position.isOpen : Position → Bool
  | active _ _ tx => tx.isOpen
  | _ => false

/-- As long as the transmit region of a closing session does not know, the outbox has word for
it. -/
def Armed (s : Session) : Prop :=
  s.position.isOpen = true → s.stage = .closing ∨ s.stage = .closed →
    s.outbox.cancelled = true

namespace Armed

theorem of_same (h : Armed s) (position : t.position.isOpen = true → s.position.isOpen = true)
    (stage : t.stage = s.stage) (cancelled : t.outbox.cancelled = s.outbox.cancelled) :
    Armed t := by
  intro ho hs
  rw [stage] at hs
  rw [cancelled]
  exact h (position ho) hs

theorem of_past (position : t.position.isOpen = false) : Armed t := by
  intro ho
  rw [position] at ho
  cases ho

theorem goes {p : Position} (h : Armed s) (hg : Goes s p) : Armed (s.goto p) := by
  refine h.of_same ?_ rfl rfl
  show p.isOpen = true → _
  cases hg <;> simp_all [Position.isOpen]

theorem sleeps {p : Position} (h : Armed s) (hg : Sleeps s p) : Armed (s.suspendOnLink p) := by
  refine h.of_same ?_ rfl rfl
  show p.isOpen = true → _
  cases hg <;> simp_all [Position.isOpen]

theorem isOpen_of_dismissed {p : Position} (h : p.dismissed.isOpen = true) : p.isOpen = true := by
  unfold Position.dismissed at h
  split at h <;> simp_all [Position.isOpen]

theorem isOpen_parting (s : Session) : s.parting.isOpen = false := by
  unfold parting
  split
  · split <;> rfl
  · rfl

theorem advances (h : Armed s) (hs : Sound s) (ha : Advances s t) : Armed t := by
  cases ha with
  | rests hp => exact h
  | goes hg => exact h.goes hg
  | sleeps hg => exact h.sleeps hg
  | shuts hg =>
    refine of_past ?_
    cases hg <;> rfl
  | prepares hp hv => exact of_past rfl
  | begins hp hh => exact of_past rfl
  | abandons hp hh => exact of_past rfl
  | hopes hp ho hh => exact of_past rfl
  | opens hp ho => exact of_past rfl
  | fails hf link =>
    rw [fail_eq]
    intro _ _
    exact Handoff.Queue.cancelled_stop _
  | records hp => exact h.of_same isOpen_of_dismissed rfl rfl
  | turnsAway hp hv => exact of_past rfl
  | connects hp hv =>
    intro _ hstage
    rcases hstage with hstage | hstage <;> cases hstage
  | hands hp hr hn => exact h
  | listens hp hr hn he => exact h.of_same (by simp [goto, hp, Position.isOpen]) rfl rfl
  | asks hp hw =>
    obtain ⟨-, -, -, -, -, hcancelled⟩ := Handoff.Queue.of_wait? (fun _ => rfl) hw
    rw [passOn_eq]
    exact h.of_same (by simp [goto, hp, Position.isOpen]) rfl hcancelled
  | isDenied hp hw => exact absurd hw (hs.wait?_ne_none hp)
  | takes hp ho =>
    obtain ⟨d, r, hd, hpolled, rfl⟩ | ⟨-, hpolled, -⟩ := hs.poll_waiting hp ho
    · cases hpolled
      obtain ⟨-, hd', -⟩ | ⟨-, a, rest, -, -, rfl⟩ := Handoff.Queue.of_nextResult? hd
      · cases hd'
      · exact h.of_same (by simp [goto, setTransmission, hp, Position.isOpen]) rfl rfl
    · cases hpolled
  | parts hp ho hd => exact of_past (isOpen_parting s)
  | idles hp ho =>
    obtain ⟨d, r, -, hpolled, -⟩ | ⟨-, -, w, -, rfl⟩ := hs.poll_waiting hp ho
    · cases hpolled
    · exact h.of_same (by simp [suspend, hp, Position.isOpen]) rfl rfl
  | writes hp hf => exact h.of_same (by simp [emit, goto, hp, Position.isOpen]) rfl rfl
  | hasWritten hp hf hh =>
    exact h.of_same (by simp [setTransmission, goto, hp, Position.isOpen]) rfl rfl
  | announces hp hf => exact of_past rfl
  | lingers hp hr => exact of_past rfl
  | concludes hp =>
    rw [conclude_eq]
    exact of_past rfl
  | finishes hp =>
    rw [finish_eq]
    exact of_past rfl

theorem act (h : Armed s) (a : Act) : Armed (s.act a) := by
  obtain ⟨message, -, ha⟩ | ⟨message, -, ha⟩ | ⟨-, ha⟩ := act_cases s a
  · rw [ha, send_eq]
    split
    · exact h
    · exact h.of_same id rfl (Handoff.Queue.cancelled_push _ _)
  · rw [ha]
    cases hr : s.running with
    | false =>
      rw [tearDown_of_not_running hr]
      exact h
    | true =>
      refine of_past ?_
      rw [(tearDown_of_running hr _).position]
      rfl
  · obtain ⟨r, hp⟩ := ha.progress
    refine h.of_same ?_ ?_ (by rw [ha.outbox])
    · rw [ha.position]
      exact id
    · rw [stage, hp]
      rfl

theorem onStop (h : Armed s) : Armed s.onStop := by
  have hposition : s.onStop.position = s.position := by rw [onStop_eq]
  intro ho hs
  rw [hposition] at ho
  rw [stage, progress_onStop] at hs
  rw [outbox_onStop]
  by_cases hactive : s.stage = .active
  · rw [if_pos hactive]
    exact Handoff.Queue.cancelled_stop _
  · rw [if_neg hactive]
    refine h ho ?_
    have hstopped : s.stage.stopped = s.stage := by
      unfold Stage.stopped
      split
      · next he => exact absurd he hactive
      · rfl
    rwa [hstopped] at hs

theorem perform (h : Armed s) (d : Deed) : Armed (s.perform d) := by
  cases d with
  | act a => exact h.act a
  | engineStop => exact h.onStop
  | heard id => exact h

theorem move (h : Armed s) (hs : Sound s) (m : Move) : Armed (s.move m) := by
  generalize ht : s.move m = t
  have hm := moves s m
  rw [ht] at hm
  cases hm with
  | stays => exact h
  | acts a => exact h.act a
  | @does d rest hd =>
    have hrest : Armed { s with doing := rest } := h
    exact hrest.perform d
  | advances hd hr ha => exact h.advances hs ha
  | hands hp hq => exact of_past rfl
  | refuses hp ha => exact of_past rfl
  | resumes hr hp hq => exact h
  | misses hr hq hp => exact h
  | drops hr hp => exact of_past rfl
  | disowns hp => exact of_past rfl
  | shuts => exact h

end Armed

/-- In every run the word that the session closes waits for the transmit region. -/
theorem armed_after (o : Origin) (ms : List Move) : Armed (o.session.after ms) := by
  have hrun := after_induction (P := fun _ s => Sound s ∧ Armed s) (s := o.session) ?_ ?_ ms
  · exact hrun.2
  · exact ⟨o.sound, Armed.of_past rfl⟩
  · intro ms m ⟨hs, h⟩
    exact ⟨hs.move m, h.move hs m⟩

/-! ### Attention -/

/-- A notified wait whose waker is stored wakes the task. -/
theorem wakes_notify {q : Handoff.Queue String Empty Unit} {k : Nat}
    (hw : q.waiting = .future k (some ())) (hready : q.isReady = true) :
    wakes q.notify.1 = true := by
  unfold Handoff.Queue.notify
  rw [if_pos hready, hw]
  rfl

theorem wakes_stop {q : Handoff.Queue String Empty Unit} {k : Nat}
    (hw : q.waiting = .future k (some ())) : wakes q.stop.1 = true :=
  wakes_notify hw rfl

theorem wakes_push {q : Handoff.Queue String Empty Unit} {k : Nat} (message : String)
    (hw : q.waiting = .future k (some ())) : wakes (q.push message).1 = true :=
  wakes_notify hw (by simp [Handoff.Queue.isReady])

/-- A poll that finds nothing stores the waker. -/
theorem awaitsOutbox_of_pending {q : Handoff.Queue String Empty Unit} {k : Nat}
    (houtbox : s.outbox.poll k () = (.pending, q)) (ht : t.outbox = q) : t.AwaitsOutbox k := by
  unfold Handoff.Queue.poll at houtbox
  split at houtbox
  · next hticket =>
    split at houtbox
    · cases houtbox
    · next hnone =>
      have hready : s.outbox.isReady = false := by
        rw [← Handoff.Queue.nextResult?_isSome, hnone]
        rfl
      have hempty : s.outbox.cancelled = false ∧ s.outbox.values = [] := by
        simpa [Handoff.Queue.isReady] using hready
      split at houtbox
      · cases houtbox
        refine ⟨?_, ?_, ?_⟩
        all_goals rw [ht]
        · exact hempty.2
        · exact hempty.1
      · next hother =>
        exfalso
        cases hw : s.outbox.waiting with
        | idle =>
          rw [hw] at hticket
          cases hticket
        | callback n handler => cases handler
        | future n w => exact hother n w hw
  · cases houtbox

theorem AwaitsHandshake.of_same (h : s.AwaitsHandshake) (link : t.link = s.link)
    (handshake : t.progress.handshake = s.progress.handshake) : t.AwaitsHandshake := by
  refine ⟨?_, ?_, handshake.trans h.interrupt⟩
  all_goals rw [link]
  · exact h.outcome
  · exact h.listening

theorem AwaitsFrame.of_same (h : s.AwaitsFrame) (link : t.link = s.link)
    (receive : t.progress.receive = s.progress.receive) : t.AwaitsFrame := by
  refine ⟨?_, ?_, ?_, receive.trans h.interrupt⟩
  all_goals rw [link]
  · exact h.unread
  · exact h.ended
  · exact h.listening

theorem AwaitsFlush.of_same (h : s.AwaitsFlush) (link : t.link = s.link) : t.AwaitsFlush := by
  refine ⟨?_, ?_, ?_⟩
  all_goals rw [link]
  · exact h.fault
  · exact h.held
  · exact h.listening

theorem AwaitsClose.of_same (h : s.AwaitsClose) (link : t.link = s.link) : t.AwaitsClose := by
  refine ⟨?_, ?_, ?_⟩
  all_goals rw [link]
  · exact h.fault
  · exact h.held
  · exact h.listening

theorem AwaitsOutbox.of_same {k : Nat} (h : s.AwaitsOutbox k) (outbox : t.outbox = s.outbox) :
    t.AwaitsOutbox k := by
  refine ⟨?_, ?_, ?_⟩
  all_goals rw [outbox]
  · exact h.values
  · exact h.cancelled
  · exact h.waker

namespace Attentive

/-- Attention is paid as long as the future stays and everything goes on to wait that waits. -/
theorem mono (h : Attentive s) (position : t.position = s.position)
    (running : t.running = s.running) (handshake : s.AwaitsHandshake → t.AwaitsHandshake)
    (frame : s.AwaitsFrame → t.AwaitsFrame) (flush : s.AwaitsFlush → t.AwaitsFlush)
    (close : s.AwaitsClose → t.AwaitsClose)
    (outbox : ∀ k, s.AwaitsOutbox k → t.AwaitsOutbox k) : Attentive t := by
  have hheeds : ∀ tx, s.Heeds tx → t.Heeds tx := by
    intro tx hs
    cases tx with
    | waiting k => exact outbox k hs
    | flushing => exact flush hs
    | announced => exact flush hs
    | closing => exact close hs
    | _ => exact hs
  unfold Attentive at h ⊢
  rw [position, running]
  split
  · next hp =>
    rw [hp] at h
    exact fun hr => handshake (h hr)
  · next hp =>
    rw [hp] at h
    exact fun hr => close (h hr)
  · next rx tx hp =>
    rw [hp] at h
    intro hr
    obtain ⟨hframe, htx, hdone⟩ := h hr
    exact ⟨fun hrx => frame (hframe hrx), hheeds tx htx, hdone⟩
  · next rx tx hp =>
    rw [hp] at h
    exact fun hrx => frame (h hrx)
  · trivial

/-- If nobody listens to the connection, whatever happens there spoils nothing. -/
theorem of_deaf (h : Attentive s) (hl : ¬ s.link.listening = true)
    (position : t.position = s.position) (running : t.running = s.running)
    (outbox : t.outbox = s.outbox) : Attentive t := by
  refine h.mono position running ?_ ?_ ?_ ?_ ?_
  · exact fun hawaits => absurd hawaits.listening hl
  · exact fun hawaits => absurd hawaits.listening hl
  · exact fun hawaits => absurd hawaits.listening hl
  · exact fun hawaits => absurd hawaits.listening hl
  · exact fun k hawaits => hawaits.of_same outbox

/-- If no waker is stored in the outbox, whatever happens there spoils nothing. -/
theorem of_unstored (h : Attentive s) (hw : ∀ k, s.outbox.waiting ≠ .future k (some ()))
    (position : t.position = s.position) (running : t.running = s.running) (link : t.link = s.link)
    (handshake : t.progress.handshake = s.progress.handshake)
    (receive : t.progress.receive = s.progress.receive) : Attentive t := by
  refine h.mono position running ?_ ?_ ?_ ?_ ?_
  · exact fun hawaits => hawaits.of_same link handshake
  · exact fun hawaits => hawaits.of_same link receive
  · exact fun hawaits => hawaits.of_same link
  · exact fun hawaits => hawaits.of_same link
  · exact fun k hawaits => absurd hawaits.waker (hw k)

end Attentive

/-! ### The future goes on -/

/-- A task in line stays there while its future runs. -/
theorem queued_advances (hs : Sound s) (ha : Advances s t) (h : s.queued = true) :
    t.queued = true := by
  cases ha with
  | shuts hg =>
    rw [wireClosed_eq]
    simp [goto, h]
  | fails hf link =>
    rw [fail_eq]
    simp [h]
  | asks hp hw =>
    rw [passOn_eq]
    simp [goto, h]
  | isDenied hp hw => exact absurd hw (hs.wait?_ne_none hp)
  | concludes hp =>
    rw [conclude_eq, settleProgress_eq]
    simp [h]
  | finishes hp =>
    rw [finish_eq, unhookEngine_eq]
    exact h
  | _ => exact h

namespace Attentive

/-- In the middle of the receive region's turn nothing is waited for. -/
theorem of_receiving {rx : Receiving} {tx : Transmitting} (hp : t.position = .active .receive rx tx)
    (hr : t.running = true) : Attentive t := by
  unfold Attentive
  rw [hp]
  intro hrest
  rw [hr] at hrest
  cases hrest

/-- In the transmit region's turn only the receive region may wait. -/
theorem of_transmitting {rx : Receiving} {tx : Transmitting}
    (hp : t.position = .active .transmit rx tx) (hrx : rx ≠ .reading) : Attentive t := by
  unfold Attentive
  rw [hp]
  exact fun hreading => absurd hreading hrx

/-- During the transmit region's turn the receive region waits for a frame, unless it is done. -/
theorem frame {rx : Receiving} {tx : Transmitting} (h : Attentive s)
    (hp : s.position = .active .transmit rx tx) (hrx : rx = .reading) : s.AwaitsFrame := by
  unfold Attentive at h
  rw [hp] at h
  exact h hrx

/-- The transmit region goes on, and the receive region still waits. -/
theorem transmits {rx : Receiving} {tx tx' : Transmitting} (h : Attentive s)
    (hp : s.position = .active .transmit rx tx) (hp' : t.position = .active .transmit rx tx')
    (link : t.link = s.link) (receive : t.progress.receive = s.progress.receive) : Attentive t := by
  unfold Attentive
  rw [hp']
  intro hrx
  exact (h.frame hp hrx).of_same link receive

/-- The poll ends in the transmit region's turn. -/
theorem suspends {rx : Receiving} {tx tx' : Transmitting} (h : Attentive s)
    (hp : s.position = .active .transmit rx tx) (hp' : t.position = .active .receive rx tx')
    (link : t.link = { s.link with listening := true } ∨ t.link = s.link)
    (receive : t.progress.receive = s.progress.receive) (heeds : t.Heeds tx')
    (undone : rx = .done → tx' ≠ .done) : Attentive t := by
  unfold Attentive
  rw [hp']
  intro _
  refine ⟨?_, heeds, undone⟩
  intro hrx
  have hframe := h.frame hp hrx
  rcases link with hlink | hlink
  · refine ⟨?_, ?_, ?_, ?_⟩
    · rw [hlink]
      exact hframe.unread
    · rw [hlink]
      exact hframe.ended
    · rw [hlink]
    · rw [receive]
      exact hframe.interrupt
  · exact hframe.of_same hlink receive

theorem goes {p : Position} (h : Attentive s) (hr : s.running = true) (hg : Goes s p) :
    Attentive (s.goto p) := by
  cases hg with
  | hasRead hp => exact of_transmitting rfl nofun
  | interrupted hp hi => exact of_receiving rfl hr
  | ranDry hp hi hn he hne => exact of_receiving rfl hr
  | hasAnnounced hp hf hh => exact h.transmits hp rfl rfl rfl
  | _ => trivial

theorem sleeps {p : Position} (h : Attentive s) (hg : Sleeps s p) :
    Attentive (s.suspendOnLink p) := by
  cases hg with
  | discarding hp hf hh => exact fun _ => ⟨hf, hh, rfl⟩
  | flushing hp hf hh => exact h.suspends hp rfl (.inl rfl) rfl ⟨hf, hh, rfl⟩ (fun _ => nofun)
  | announced hp hf hh => exact h.suspends hp rfl (.inl rfl) rfl ⟨hf, hh, rfl⟩ (fun _ => nofun)
  | closing hp hf hh => exact h.suspends hp rfl (.inl rfl) rfl ⟨hf, hh, rfl⟩ (fun _ => nofun)

/-- If the peer ends its side as soon as the sink is closed, a receive region that waits is
woken. -/
theorem shuts {p : Position} (h : Attentive s) (hg : Shuts s p) :
    Wakeful (s.wireClosed.goto p) := by
  cases hg with
  | discarding hp hf hh => exact .inr trivial
  | @closing rx hp hf hh =>
    rw [wireClosed_eq]
    by_cases hups : s.link.hangsUp = true ∧ s.link.listening = true
    · refine .inl ?_
      simp [goto, hups.1, hups.2]
    · refine .inr ?_
      intro hrx
      have hframe := h.frame hp hrx
      have hstays : s.link.hangsUp = false := by
        by_contra hc
        exact hups ⟨by simpa using hc, hframe.listening⟩
      refine ⟨hframe.unread, ?_, ?_, hframe.interrupt⟩
      · simp [goto, hframe.ended, hstays]
      · simp [goto, hframe.listening, hstays]

/-- A failure ends the reading of frames, and wakes it if it waits. -/
theorem fails {e : Ending} (h : Attentive s) (hr : s.running = true) (hf : s.fault? = some e)
    (link : Link) (x : Transmission) :
    Wakeful ({ s with link := link, progress := { s.progress with transmission := x } }.fail e
      (s.position.reporting e) s.position.dismissed) := by
  rw [fail_eq]
  by_cases hv : s.progress.verdict = none
  · rcases Sound.position_of_fault hf with hp | ⟨tx, hp⟩ | ⟨rx, tx, hp, -⟩
    · simp only [if_pos hv, hp, Position.reporting]
      exact .inr trivial
    · simp only [if_pos hv, hp, Position.reporting]
      exact .inr (of_receiving rfl hr)
    · simp only [if_pos hv, hp, Position.reporting]
      by_cases hrx : rx = .reading
      · exact .inl (by simp [(h.frame hp hrx).interrupt, Interrupt.listens])
      · exact .inr (of_transmitting rfl hrx)
  · rcases Sound.position_of_fault hf with hp | ⟨tx, hp⟩ | ⟨rx, tx, hp, -⟩
    · simp only [if_neg hv, hp, Position.dismissed]
      exact .inr trivial
    · simp only [if_neg hv, hp, Position.dismissed]
      exact .inr (of_receiving rfl hr)
    · simp only [if_neg hv, hp, Position.dismissed]
      by_cases hrx : rx = .reading
      · exact .inl (by simp [(h.frame hp hrx).interrupt, Interrupt.listens])
      · exact .inr (of_transmitting rfl hrx)

theorem advances (h : Attentive s) (hs : Sound s) (hr : s.running = true) (ha : Advances s t) :
    Wakeful t := by
  cases ha with
  | rests hp =>
    have hcan := hs.runs hr
    rcases hp with hp | hp | hp <;> simp [hp, Position.CanRun] at hcan
  | goes hg => exact .inr (h.goes hr hg)
  | sleeps hg => exact .inr (h.sleeps hg)
  | shuts hg => exact h.shuts hg
  | prepares hp hv => exact .inr trivial
  | begins hp hh => exact .inr trivial
  | abandons hp hh => exact .inr trivial
  | hopes hp ho hh => exact .inr (fun _ => ⟨ho, rfl, rfl⟩)
  | opens hp ho => exact .inr trivial
  | fails hf link => exact h.fails hr hf link _
  | @records e hp =>
    refine .inr ?_
    unfold Position.reported? at hp
    split at hp
    · next hpos =>
      simp only [hpos, Position.dismissed]
      trivial
    · next tx hpos =>
      simp only [hpos, Position.dismissed]
      exact of_receiving rfl hr
    · next rx hpos =>
      simp only [hpos, Position.dismissed]
      exact h.transmits hpos rfl rfl rfl
    · cases hp
  | turnsAway hp hv => exact .inr (fun hrest => absurd hr (by simpa [goto] using hrest))
  | connects hp hv => exact .inr (of_receiving rfl hr)
  | hands hp hread hn => exact .inr (of_receiving hp hr)
  | listens hp hread hn he =>
    have hunread : s.link.unread = [] := Link.next?_eq_none_iff.mp hn
    exact .inr (fun _ => ⟨hunread, he, rfl, rfl⟩)
  | asks hp hw =>
    rw [passOn_eq]
    exact .inr (h.transmits hp rfl rfl rfl)
  | isDenied hp hw => exact absurd hw (hs.wait?_ne_none hp)
  | takes hp ho => exact .inr (h.transmits hp rfl rfl rfl)
  | parts hp ho hd => exact .inr (h.transmits hp rfl rfl rfl)
  | idles hp ho =>
    refine .inr (h.suspends hp rfl (.inr rfl) rfl ?_ ?_)
    · exact awaitsOutbox_of_pending ho rfl
    · intro _ hsent
      cases hsent
  | writes hp hf => exact .inr (h.transmits hp rfl rfl rfl)
  | hasWritten hp hf hh => exact .inr (h.transmits hp rfl rfl rfl)
  | announces hp hf => exact .inr (h.transmits hp rfl rfl rfl)
  | lingers hp hrx =>
    exact .inr (h.suspends hp rfl (.inr rfl) rfl trivial (fun hdone => absurd hdone hrx))
  | concludes hp =>
    rw [conclude_eq]
    exact .inr trivial
  | finishes hp =>
    rw [finish_eq]
    exact .inr trivial

end Attentive

/-! ### Deeds -/

/-- An act that is neither on the connection nor on the outbox leaves the line alone. -/
theorem link_act {a : Act} (hlink : ∀ act, a ≠ .link act) (hsent : a.sent? = none)
    (hpanic : ∀ message, a ≠ .panic message) :
    (s.act a).link = s.link ∧ (s.act a).queued = s.queued := by
  cases a with
  | send message => cases hsent
  | echo => cases hsent
  | panic message => exact absurd rfl (hpanic message)
  | link act => exact absurd rfl (hlink act)
  | stopWith r =>
    show (s.chooseReason r).fireStop.link = _ ∧ (s.chooseReason r).fireStop.queued = _
    rw [chooseReason_eq]
    exact ⟨rfl, rfl⟩
  | closed id =>
    show (s.createWaiter id).link = _ ∧ (s.createWaiter id).queued = _
    unfold createWaiter
    dsimp only
    split <;> split <;> exact ⟨rfl, rfl⟩
  | listen id acts =>
    show (s.listen id acts).link = _ ∧ (s.listen id acts).queued = _
    unfold listen
    simp only [unhookStop_eq]
    split <;> exact ⟨rfl, rfl⟩
  | unlisten id =>
    show (s.unlisten id).link = _ ∧ (s.unlisten id).queued = _
    unfold unlisten
    simp only [unhookStop_eq]
    split <;> exact ⟨rfl, rfl⟩
  | _ => exact ⟨rfl, rfl⟩

theorem queued_onStop (s : Session) :
    s.onStop.queued = (s.queued ||
      match s.stage with
      | .handshaking => s.progress.handshake.listens
      | .active => wakes s.outbox.stop.1
      | _ => false) := by
  unfold onStop
  cases h : s.progress.stage <;>
    simp [stage, h, interruptHandshake_eq, stopOutbox_eq, Progress.judge]

namespace Wakeful

theorem of_same (h : Wakeful s) (queued : t.queued = s.queued) (position : t.position = s.position)
    (running : t.running = s.running) (link : t.link = s.link) (outbox : t.outbox = s.outbox)
    (handshake : t.progress.handshake = s.progress.handshake)
    (receive : t.progress.receive = s.progress.receive) : Wakeful t := by
  rcases h with hq | hatt
  · exact .inl (queued.trans hq)
  · refine .inr (hatt.mono position running ?_ ?_ ?_ ?_ ?_)
    · exact fun hawaits => hawaits.of_same link handshake
    · exact fun hawaits => hawaits.of_same link receive
    · exact fun hawaits => hawaits.of_same link
    · exact fun hawaits => hawaits.of_same link
    · exact fun k hawaits => hawaits.of_same outbox

/-- Whatever happens to the connection wakes the operation that listens. -/
theorem onLink (h : Wakeful s) (act : LinkAct) : Wakeful (s.onLink act) := by
  rw [Session.onLink, touch_eq]
  have hlistening : (act.apply s.link).listening = s.link.listening := by cases act <;> rfl
  rcases h with hq | hatt
  · exact .inl (by simp [hq])
  · by_cases hl : s.link.listening = true
    · exact .inl (by simp [hlistening, hl])
    · exact .inr (hatt.of_deaf hl rfl rfl rfl)

/-- What happens to the outbox wakes the transmit region, if its waker is stored there. -/
theorem onOutbox {b : Bool} (h : Wakeful s) (queued : t.queued = (s.queued || b))
    (wakes : ∀ k, s.outbox.waiting = .future k (some ()) → b = true)
    (position : t.position = s.position) (running : t.running = s.running) (link : t.link = s.link)
    (handshake : t.progress.handshake = s.progress.handshake)
    (receive : t.progress.receive = s.progress.receive) : Wakeful t := by
  unfold Wakeful
  rw [queued]
  rcases h with hq | hatt
  · exact .inl (by simp [hq])
  · by_cases hb : b = true
    · exact .inl (by simp [hb])
    · refine .inr (hatt.of_unstored ?_ position running link handshake receive)
      intro k hk
      exact hb (wakes k hk)

theorem send (h : Wakeful s) (message : String) : Wakeful (s.send message) := by
  rw [send_eq]
  split
  · exact h
  · exact h.onOutbox rfl (fun k hk => wakes_push message hk) rfl rfl rfl rfl rfl

theorem tearDown (h : Wakeful s) (cause : Panic) : Wakeful (s.tearDown cause) := by
  cases hr : s.running with
  | false =>
    rw [tearDown_of_not_running hr]
    exact h.of_same rfl rfl rfl rfl rfl rfl rfl
  | true =>
    refine .inr ?_
    unfold Attentive
    rw [(tearDown_of_running hr cause).position]
    trivial

theorem act (h : Wakeful s) (a : Act) : Wakeful (s.act a) := by
  by_cases hpanic : ∃ message, a = .panic message
  · obtain ⟨message, rfl⟩ := hpanic
    exact h.tearDown _
  by_cases hlink : ∃ act, a = .link act
  · obtain ⟨act, rfl⟩ := hlink
    exact h.onLink act
  obtain ⟨message, -, ha⟩ | ⟨message, hp, -⟩ | ⟨hsent, ha⟩ := act_cases s a
  · rw [ha]
    exact h.send message
  · exact absurd ⟨message, hp⟩ hpanic
  · obtain ⟨hl, hq⟩ := link_act (s := s) (fun act hact => hlink ⟨act, hact⟩) hsent
      (fun message hact => hpanic ⟨message, hact⟩)
    obtain ⟨r, hp⟩ := ha.progress
    refine h.of_same hq ha.position ha.running hl ha.outbox ?_ ?_
    · rw [hp]
    · rw [hp]

/-- A stop wakes what it ends: a handshake that waits, or the wait on the outbox. -/
theorem onStop (h : Wakeful s) : Wakeful s.onStop := by
  have hposition : s.onStop.position = s.position := by rw [onStop_eq]
  have hrunning : s.onStop.running = s.running := by rw [onStop_eq]
  have hlink : s.onStop.link = s.link := by rw [onStop_eq]
  have hreceive : s.onStop.progress.receive = s.progress.receive := by rw [progress_onStop]; rfl
  have hqueued := queued_onStop s
  by_cases hhand : s.stage = .handshaking
  · have houtbox : s.onStop.outbox = s.outbox := by rw [outbox_onStop, if_neg (by simp [hhand])]
    rw [hhand] at hqueued
    unfold Wakeful
    rw [hqueued]
    rcases h with hq | hatt
    · exact .inl (by simp [hq])
    · by_cases hl : s.progress.handshake.listens = true
      · exact .inl (by simp [hl])
      · refine .inr (hatt.mono hposition hrunning ?_ ?_ ?_ ?_ ?_)
        · exact fun hawaits => absurd (by rw [hawaits.interrupt]; rfl) hl
        · exact fun hawaits => hawaits.of_same hlink hreceive
        · exact fun hawaits => hawaits.of_same hlink
        · exact fun hawaits => hawaits.of_same hlink
        · exact fun k hawaits => hawaits.of_same houtbox
  have hhandshake : s.onStop.progress.handshake = s.progress.handshake := by
    rw [progress_onStop]
    exact if_neg hhand
  by_cases hactive : s.stage = .active
  · rw [hactive] at hqueued
    exact h.onOutbox hqueued (fun k hk => wakes_stop hk) hposition hrunning hlink hhandshake
      hreceive
  · have houtbox : s.onStop.outbox = s.outbox := by rw [outbox_onStop, if_neg hactive]
    have hquiet : s.onStop.queued = s.queued := by
      rw [hqueued]
      cases hs : s.stage <;> simp_all
    exact h.of_same hquiet hposition hrunning hlink houtbox hhandshake hreceive

theorem perform (h : Wakeful s) (d : Deed) : Wakeful (s.perform d) := by
  cases d with
  | act a => exact h.act a
  | engineStop => exact h.onStop
  | heard id => exact h.of_same rfl rfl rfl rfl rfl rfl rfl

/-! ### Every run -/

/-- A future that is polled again waits for nothing yet. -/
theorem of_resumed (hs : Sound s) (hr : s.running = false) (hr' : t.running = true)
    (hp : t.position = s.position) : Wakeful t := by
  have hrest := hs.rests hr
  refine .inr ?_
  unfold Attentive
  rw [hp]
  split
  · exact fun hno => absurd hr' (by simp [hno])
  · exact fun hno => absurd hr' (by simp [hno])
  · exact fun hno => absurd hr' (by simp [hno])
  · next hpos =>
    rw [hpos] at hrest
    cases hrest.1
  · trivial

theorem move (h : Wakeful s) (hs : Sound s) (m : Move) : Wakeful (s.move m) := by
  generalize ht : s.move m = t
  have hm := moves s m
  rw [ht] at hm
  cases hm with
  | stays => exact h
  | acts a => exact h.act a
  | @does d rest hd =>
    have hrest : Wakeful { s with doing := rest } := h.of_same rfl rfl rfl rfl rfl rfl rfl
    exact hrest.perform d
  | advances hd hr ha =>
    rcases h with hq | hatt
    · exact .inl (queued_advances hs ha hq)
    · exact hatt.advances hs hr ha
  | hands hp hq => exact .inr trivial
  | refuses hp ha => exact .inr trivial
  | resumes hr hp hq => exact of_resumed hs hr rfl rfl
  | misses hr hq hp =>
    refine .inr ?_
    unfold Attentive
    split
    all_goals simp_all [Position.CanRun]
  | drops hr hp => exact .inr trivial
  | disowns hp => exact .inr trivial
  | shuts => exact h.of_same rfl rfl rfl rfl rfl rfl rfl

end Wakeful

/-- In every run, a task that is not in line will be put there by what its future waits for. -/
theorem wakeful_after (o : Origin) (ms : List Move) : Wakeful (o.session.after ms) := by
  have hrun := after_induction (P := fun _ s => Sound s ∧ Wakeful s) (s := o.session) ?_ ?_ ms
  · exact hrun.2
  · exact ⟨o.sound, .inr trivial⟩
  · intro ms m ⟨hs, h⟩
    exact ⟨hs.move m, h.move hs m⟩

/-! ### What a session waits for, stage by stage -/

/-- The future was handed over and polled, and it has neither ended nor been dropped. -/
def Position.isUnderWay : Position → Bool
  | engine | neverRun | spawned | .over => false
  | _ => true

/-- What the future of a session waits for while nobody runs it and it is not in line. -/
def AwaitsAtStage (s : Session) : Stage → Prop
  | .notStarted => False
  -- the handshake, or the closing of a stream that was opened too late
  | .handshaking =>
    s.position = .handshaking ∧ s.AwaitsHandshake ∧ s.progress.verdict = none ∨
      s.position = .discarding ∧ s.AwaitsClose
  -- the next frame, and also a write or a message to write
  | .active => ∃ tx, s.position = .active .receive .reading tx ∧ s.AwaitsFrame ∧
      (s.IsWriting tx ∨ ∃ k, tx = .waiting k ∧ s.AwaitsOutbox k)
  -- the next frame, a write or the closing of the sink, but no message
  | .closing => ∃ rx tx, s.position = .active .receive rx tx ∧ tx.ticket? = none ∧
      (rx = .reading ∧ s.AwaitsFrame ∨ s.IsWriting tx)
  -- a write or the closing of the sink
  | .closed => ∃ tx, s.position = .active .receive .done tx ∧ s.IsWriting tx

/-- The transmit region of a closing session does not wait on the outbox, for word is there. -/
theorem isWriting_of_ending {rx : Receiving} {tx : Transmitting} (ha : Armed s)
    (hp : s.position = .active .receive rx tx) (hstage : s.stage = .closing ∨ s.stage = .closed)
    (heeds : s.Heeds tx) : tx.ticket? = none ∧ (tx ≠ .done → s.IsWriting tx) := by
  cases tx with
  | waiting k =>
    have hcancelled : s.outbox.cancelled = true := ha (by rw [hp]; rfl) hstage
    rw [heeds.cancelled] at hcancelled
    cases hcancelled
  | done => exact ⟨rfl, fun hne => absurd rfl hne⟩
  | _ => exact ⟨rfl, fun _ => heeds⟩

theorem awaitsAtStage_active {rx : Receiving} {tx : Transmitting} (hs : Sound s) (ha : Armed s)
    (hw : s.Attentive) (hr : s.running = false) (hp : s.position = .active .receive rx tx) :
    s.AwaitsAtStage s.stage := by
  have hf := hs.fits
  have hcan := hs.rests hr
  unfold Attentive at hw
  rw [hp] at hf hw hcan
  obtain ⟨⟨hstarted, hopened, -⟩, hopen, -, -⟩ := hf
  obtain ⟨hframe, hheeds, hdone⟩ := hw hr
  have hreading : rx ≠ .reading → rx = .done := by
    intro hrx
    cases rx with
    | reading => exact absurd rfl hrx
    | failing e => cases hcan.2.1
    | done => rfl
  cases hstage : s.stage with
  | notStarted => exact absurd hstage hstarted
  | handshaking => exact absurd hstage hopened
  | active =>
    obtain ⟨rfl, htx⟩ := hopen (hs.coherent.none_of_active hstage)
    refine ⟨tx, hp, hframe rfl, ?_⟩
    cases tx with
    | waiting k => exact .inr ⟨k, rfl, hheeds⟩
    | asking => exact .inl hheeds
    | writing message => exact .inl hheeds
    | flushing => exact .inl hheeds
    | _ => cases htx
  | closing =>
    obtain ⟨hticket, hwriting⟩ := isWriting_of_ending ha hp (.inl hstage) hheeds
    refine ⟨rx, tx, hp, hticket, ?_⟩
    by_cases hrx : rx = .reading
    · exact .inl ⟨hrx, hframe hrx⟩
    · exact .inr (hwriting (hdone (hreading hrx)))
  | closed =>
    obtain ⟨-, hwriting⟩ := isWriting_of_ending ha hp (.inr hstage) hheeds
    have hrx : rx ≠ .reading := by
      intro hrx
      have hready : s.progress.receive.isReady = true := by
        rw [(hframe hrx).interrupt]
        rfl
      rcases hs.coherent.isReady_iff.mp hready with hother | hother
      · rw [stage, hother] at hstage
        cases hstage
      · rw [stage, hother] at hstage
        cases hstage
    have hrx := hreading hrx
    subst hrx
    exact ⟨tx, hp, hwriting (hdone rfl)⟩

/--
**A session never hangs on a wake-up of its own making.**

In every run, when the future was polled and has not ended, and its task is neither in line nor
being run, the session waits for the connection, or for a message with its waker stored in an outbox
that is empty and was not stopped.
-/
theorem awaits_of_run (o : Origin) (ms : List Move)
    (underWay : (o.session.after ms).position.isUnderWay = true)
    (notQueued : (o.session.after ms).queued = false)
    (notRunning : (o.session.after ms).running = false) :
    (o.session.after ms).AwaitsAtStage (o.session.after ms).stage := by
  have hs := sound_after o ms
  have ha := armed_after o ms
  have hw := wakeful_after o ms
  generalize o.session.after ms = s at *
  have hatt : s.Attentive := by
    rcases hw with hq | hatt
    · rw [notQueued] at hq
      cases hq
    · exact hatt
  have hf := hs.fits
  have hcan := hs.rests notRunning
  cases hp : s.position with
  | active turn rx tx =>
    rw [hp] at hcan
    obtain ⟨rfl, -, -⟩ := hcan
    exact awaitsAtStage_active hs ha hatt notRunning hp
  | handshaking =>
    unfold Attentive at hatt
    rw [hp] at hf hatt
    have hawaits := hatt notRunning
    have hverdict : s.progress.verdict = none := by
      have hc := hs.coherent
      unfold Progress.Coherent at hc
      rw [hf.1] at hc
      exact hc.2.2.1 (by rw [hawaits.interrupt]; rfl)
    rw [stage, hf.1]
    exact .inl ⟨hp, hawaits, hverdict⟩
  | discarding =>
    unfold Attentive at hatt
    rw [hp] at hf hatt
    rw [stage, hf.1]
    exact .inr ⟨hp, hatt notRunning⟩
  | engine | neverRun | spawned =>
    rw [hp] at underWay
    cases underWay
  | _ =>
    rw [hp] at hcan underWay
    first | exact absurd underWay Bool.false_ne_true | exact absurd hcan id

/-- A connection whose writes do not complete, and a handler with a message for it. -/
def Origin.stuckWrite : Origin where
  link := { held := true }
  handler := { onConnected := [.send "word"] }

/-- Such a session runs until it waits for its write, and is stopped there. -/
def stoppedMidWrite : List Move :=
  .serve :: .poll :: .replicate 12 .tick ++ [.act .stop, .tick]

/-- The session is closing, and it waits for the connection. -/
theorem awaits_of_stuckWrite :
    (Origin.stuckWrite.session.after stoppedMidWrite).AwaitsAtStage .closing := by
  have hunderWay : (Origin.stuckWrite.session.after stoppedMidWrite).position.isUnderWay
      = true := by
    decide +kernel
  have hqueued : (Origin.stuckWrite.session.after stoppedMidWrite).queued = false := by
    decide +kernel
  have hrunning : (Origin.stuckWrite.session.after stoppedMidWrite).running = false := by
    decide +kernel
  have hstage : (Origin.stuckWrite.session.after stoppedMidWrite).stage = .closing := by
    decide +kernel
  have hawaits := awaits_of_run Origin.stuckWrite stoppedMidWrite hunderWay hqueued hrunning
  rw [hstage] at hawaits
  exact hawaits

end Dialogue.Session
