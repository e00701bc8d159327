/-
What is true of a session at every moment.

The record of progress, the position of the future and the outbox are three separate things, written
by different hands: handles and the engine's listener write the record, the future moves, and both
touch the outbox.  `Sound` says how they agree.  The record alone is `Coherent`: an active session
has no verdict and its reading can be interrupted, a closing one was cancelled, a closed one has a
verdict and reads no more.  The position `Fits` the record.  The outbox has a wait exactly while the
transmit region waits, and from the moment it is stopped the session is closing or closed.

Panics are included.  A panic outside of the future leaves the future where it is, and one inside
ends it, so neither breaks the agreement.
-/
import Dialogue.Proofs.Handoff.Queue
import Dialogue.Proofs.Session.Advance

namespace Dialogue.Session

/-! ### The agreement -/

/-- The record of progress agrees with itself. -/
def Progress.Coherent (p : Progress) : Prop :=
  match p.stage with
  | .notStarted => p.verdict ≠ some .failed ∧ p.handshake = .absent ∧ p.receive = .absent
  | .handshaking => p.verdict ≠ some .failed ∧ p.receive = .absent ∧
      (p.handshake.isReady = true → p.verdict = none) ∧
      (p.handshake = .pulled → p.verdict ≠ none)
  | .active => p.verdict = none ∧ p.handshake = .absent ∧ p.receive.isReady = true
  | .closing => p.verdict = some .cancelled ∧ p.handshake = .absent ∧ p.receive.isReady = true
  | .closed => p.verdict ≠ none ∧ p.receive.isReady = false

/-- A failure was reported to the handler and is about to be recorded. -/
@[simp]
def Receiving.isFailing : Receiving → Bool
  | failing _ => true
  | reading | done => false

@[simp, inherit_doc Receiving.isFailing]
def Transmitting.isFailing : Transmitting → Bool
  | failing _ => true
  | asking | waiting _ | writing _ | flushing | announcing _ | announced | closing | done => false

/-- The transmit region is where it is as long as nothing has ended the session. -/
@[simp]
def Transmitting.isOpen : Transmitting → Bool
  | asking | waiting _ | writing _ | flushing => true
  | announcing _ | announced | closing | failing _ | done => false

/-- The position agrees with the record of progress. -/
def Position.Fits (p : Progress) : Position → Prop
  | engine | neverRun | spawned => p.stage = .notStarted
  | preparing | handshaking | awaiting | opened =>
    p.stage = .handshaking ∧ p.handshake ≠ .absent
  | refusing _ => p.verdict = some .failed ∧ p.stage = .closed
  | discarding => p.stage = .handshaking ∧ p.verdict ≠ none
  | active turn rx tx =>
    (p.stage ≠ .notStarted ∧ p.stage ≠ .handshaking ∧ p.receive ≠ .absent) ∧
      (p.verdict = none → rx = .reading ∧ tx.isOpen = true) ∧
      (rx.isFailing = true → turn = .receive ∧ p.verdict = some .failed) ∧
      (tx.isFailing = true → turn = .transmit ∧ p.verdict = some .failed)
  | finishing resolves => resolves = true → p.verdict ≠ none
  | concluding _ _ | .over => p.stage = .closed

/-- The number of the wait on the outbox. -/
@[simp]
def Transmitting.ticket? : Transmitting → Option Nat
  | waiting t => some t
  | asking | writing _ | flushing | announcing _ | announced | closing | failing _ | done => none

@[simp, inherit_doc Transmitting.ticket?]
def Position.ticket? : Position → Option Nat
  | active _ _ tx => tx.ticket?
  | engine | neverRun | spawned | preparing | handshaking | awaiting | refusing _ | opened
  | discarding | finishing _ | concluding _ _ | .over => none

/-- The future can be left here until it is polled again. -/
def Position.CanRest : Position → Prop
  | engine | neverRun | spawned | handshaking | discarding | .over => True
  | active turn rx tx => turn = .receive ∧ rx.isFailing = false ∧ tx.isFailing = false
  | _ => False

/-- Record, position and outbox agree. -/
structure Sound (s : Session) : Prop where
  coherent : s.progress.Coherent
  fits : s.position.Fits s.progress
  /-- Nobody but the transmit region waits on the outbox. -/
  ticket : s.outbox.waiting.ticket? = s.position.ticket?
  /-- The outbox is stopped only when the session closes. -/
  armed : s.outbox.cancelled = true → s.stage = .closing ∨ s.stage = .closed
  /-- Nothing is buffered once the session closes. -/
  emptied : s.stage = .closing ∨ s.stage = .closed → s.outbox.values = []
  rests : s.running = false → s.position.CanRest
  runs : s.running = true → s.position.CanRun
  /-- All panics are raised by callbacks; the session itself does not panic. -/
  panics : s.panicked = none ∨ ∃ message, s.panicked = some (.raised message)

/-! ### What the record says by itself -/

namespace Progress.Coherent

variable {p : Progress}

theorem closed_of_failed (h : p.Coherent) (hv : p.verdict = some .failed) : p.stage = .closed := by
  unfold Coherent at h
  cases hs : p.stage <;> simp_all

theorem active_of_none (h : p.Coherent) (hv : p.verdict = none) :
    p.stage = .notStarted ∨ p.stage = .handshaking ∨ p.stage = .active := by
  unfold Coherent at h
  cases hs : p.stage <;> simp_all

theorem none_of_active (h : p.Coherent) (hs : p.stage = .active) : p.verdict = none := by
  unfold Coherent at h
  simp_all

theorem ne_none_of_ending (h : p.Coherent) (hs : p.stage = .closing ∨ p.stage = .closed) :
    p.verdict ≠ none := by
  unfold Coherent at h
  rcases hs with hs | hs <;> simp_all

/-- While frames are read, the session is active or closing. -/
theorem isReady_iff (h : p.Coherent) :
    p.receive.isReady = true ↔ p.stage = .active ∨ p.stage = .closing := by
  unfold Coherent at h
  cases hs : p.stage <;> simp_all

end Progress.Coherent

namespace Sound

variable {s t : Session}

/-! ### Steps that leave the record and the outbox alone -/

theorem of_same (h : Sound s)
    (progress : ∃ x r, t.progress = { s.progress with transmission := x, closeReason := r })
    (outbox : t.outbox = s.outbox) (fits : t.position.Fits s.progress)
    (ticket : t.position.ticket? = s.position.ticket?)
    (rests : t.running = false → t.position.CanRest)
    (runs : t.running = true → t.position.CanRun) (panicked : t.panicked = s.panicked) :
    Sound t := by
  obtain ⟨x, r, hp⟩ := progress
  have hs : t.stage = s.stage := by rw [stage, hp]; rfl
  constructor
  · rw [hp]
    exact h.coherent
  · rw [hp]
    cases hpos : t.position <;> rw [hpos] at fits <;> exact fits
  · rw [outbox, ticket, h.ticket]
  · rw [outbox, hs]
    exact h.armed
  · rw [outbox, hs]
    exact h.emptied
  · exact rests
  · exact runs
  · rw [panicked]
    exact h.panics

theorem aside (h : Sound s) (ha : Aside s t) : Sound t := by
  obtain ⟨r, hr⟩ := ha.progress
  refine h.of_same ⟨s.progress.transmission, r, hr⟩ ha.outbox ?_ ?_ ?_ ?_ ha.panicked
  · rw [ha.position]
    exact h.fits
  · rw [ha.position]
  · rw [ha.position, ha.running]
    exact h.rests
  · rw [ha.position, ha.running]
    exact h.runs

theorem goes {p : Position} (h : Sound s) (hr : s.running = true) (hg : Goes s p) :
    Sound (s.goto p) := by
  have hc := h.coherent
  have hf := h.fits
  unfold Progress.Coherent at hc
  refine h.of_same ⟨_, _, rfl⟩ rfl ?_ ?_ (by simp [goto, hr]) ?_ rfl
  · cases hg with
    | interrupted hp hi => cases hs : s.progress.stage <;> simp_all [goto, Position.Fits]
    | ranDry hp hi hn he hne =>
      cases hs : s.progress.stage <;> simp_all [goto, stage, Position.Fits]
    | _ => simp_all [goto, Position.Fits]
  · cases hg <;> simp_all [goto]
  · intro _
    cases hg <;> trivial

theorem sleeps {p : Position} (h : Sound s) (hg : Sleeps s p) : Sound (s.suspendOnLink p) := by
  have hf := h.fits
  refine h.of_same ⟨_, _, rfl⟩ rfl ?_ ?_ ?_ (by simp [suspendOnLink, suspend]) rfl
  · cases hg <;> simp_all [suspendOnLink, suspend, Position.Fits]
  · cases hg <;> simp_all [suspendOnLink, suspend]
  · intro _
    cases hg <;> simp_all [suspendOnLink, suspend, Position.CanRest, Position.Fits]

theorem shuts {p : Position} (h : Sound s) (hr : s.running = true) (hg : Shuts s p) :
    Sound (s.wireClosed.goto p) := by
  have hf := h.fits
  rw [wireClosed_eq]
  refine h.of_same ⟨_, _, rfl⟩ rfl ?_ ?_ (by simp [goto, hr]) ?_ rfl
  · cases hg <;> simp_all [goto, Position.Fits]
  · cases hg <;> simp_all [goto]
  · intro _
    cases hg <;> trivial

theorem records {e : Ending} (h : Sound s) (hr : s.running = true)
    (hp : s.position.reported? = some e) : Sound (s.record e s.position.dismissed) := by
  have hf := h.fits
  refine h.of_same ⟨_, _, rfl⟩ rfl ?_ ?_ (by simp [record, goto, hr]) ?_ rfl
  all_goals
    simp only [record, goto]
    unfold Position.reported? at hp
    split at hp <;>
      simp_all [Position.dismissed, Position.Fits, Position.CanRun]

/-! ### Steps that change the outbox -/

/-- Nobody waits on the outbox when the transmit region asks. -/
theorem wait?_ne_none {turn : Turn} {rx : Receiving} (h : Sound s)
    (hp : s.position = .active turn rx .asking) : s.outbox.wait? (.future · none) ≠ none := by
  intro hw
  have hwait := Handoff.Queue.wait?_eq_none_iff.mp hw
  rw [Handoff.Queue.isWaiting, h.ticket, hp] at hwait
  cases hwait

theorem asks {rx : Receiving} {k : Nat} {notice : Option (Handoff.Notice Unit)}
    {outbox : Handoff.Queue String Empty Unit} (h : Sound s) (hr : s.running = true)
    (hp : s.position = .active .transmit rx .asking)
    (hw : s.outbox.wait? (.future · none) = some (k, notice, outbox)) :
    Sound (({ s with outbox := outbox }.passOn notice).goto
      (.active .transmit rx (.waiting k))) := by
  obtain ⟨-, -, hk, -, hvalues, hcancelled⟩ := Handoff.Queue.of_wait? (fun _ => rfl) hw
  have hf := h.fits
  rw [passOn_eq]
  constructor
  · exact h.coherent
  · simp_all [goto, Position.Fits]
  · simpa [goto] using hk
  · simpa [goto, stage, hcancelled] using h.armed
  · simpa [goto, stage, hvalues] using h.emptied
  · simp [goto, hr]
  · exact fun _ => trivial
  · exact h.panics

/-- The wait on the outbox is the transmit region's own, so a poll does not find it withdrawn. -/
theorem poll_waiting {turn : Turn} {rx : Receiving} {k : Nat} {polled : Handoff.Polled String}
    {outbox : Handoff.Queue String Empty Unit} (h : Sound s)
    (hp : s.position = .active turn rx (.waiting k))
    (ho : s.outbox.poll k () = (polled, outbox)) :
    (∃ d r, s.outbox.nextResult? = some (d, r) ∧ polled = .delivered d ∧
        outbox = { r with waiting := .idle }) ∨
      (s.outbox.nextResult? = none ∧ polled = .pending ∧
        ∃ waiting, waiting.ticket? = some k ∧
            outbox = { s.outbox with waiting := waiting }) := by
  have hk : s.outbox.waiting.ticket? = some k := by rw [h.ticket, hp]; rfl
  obtain ⟨hne, -⟩ | ⟨-, d, r, hd, hpoll⟩ | ⟨-, hn, w, hw, hpoll⟩ :=
    s.outbox.poll_cases k ()
  · exact absurd hk hne
  · rw [ho] at hpoll
    cases hpoll
    exact .inl ⟨d, r, hd, rfl, rfl⟩
  · rw [ho] at hpoll
    cases hpoll
    exact .inr ⟨hn, rfl, w, hw, rfl⟩

theorem takes {rx : Receiving} {k : Nat} {message : String}
    {outbox : Handoff.Queue String Empty Unit} (h : Sound s) (hr : s.running = true)
    (hp : s.position = .active .transmit rx (.waiting k))
    (ho : s.outbox.poll k () = (.delivered (.value message), outbox)) :
    Sound (({ s with outbox := outbox }.setTransmission .sending).goto
      (.active .transmit rx (.writing message))) := by
  have hf := h.fits
  obtain ⟨d, r, hd, hpolled, rfl⟩ | ⟨-, hpolled, -⟩ := h.poll_waiting hp ho
  · cases hpolled
    obtain ⟨-, hd', -⟩ | ⟨hc, a, rest, hv, ha, rfl⟩ := Handoff.Queue.of_nextResult? hd
    · cases hd'
    constructor
    · exact h.coherent
    · simp_all [goto, setTransmission, Position.Fits]
    · rfl
    · simp [goto, setTransmission, hc]
    · intro hs
      have := h.emptied hs
      simp [hv] at this
    · simp [goto, setTransmission, hr]
    · exact fun _ => trivial
    · exact h.panics
  · cases hpolled

theorem isFailing_parting (s : Session) : s.parting.isFailing = false := by
  unfold parting
  split
  · split <;> rfl
  · rfl

theorem ticket?_parting (s : Session) : s.parting.ticket? = none := by
  unfold parting
  split
  · split <;> rfl
  · rfl

/-- The transmit region learns that it shall end only when the session closes. -/
theorem ending_of_parts {turn : Turn} {rx : Receiving} {k : Nat} {polled : Handoff.Polled String}
    {outbox : Handoff.Queue String Empty Unit} (h : Sound s)
    (hp : s.position = .active turn rx (.waiting k))
    (ho : s.outbox.poll k () = (polled, outbox))
    (hd : polled = .delivered .cancelled ∨ polled = .withdrawn) :
    (s.stage = .closing ∨ s.stage = .closed) ∧
      outbox = { s.outbox with waiting := .idle, cancelled := false } := by
  obtain ⟨d, r, hres, rfl, rfl⟩ | ⟨-, rfl, -⟩ := h.poll_waiting hp ho
  · obtain ⟨hc, rfl, rfl⟩ | ⟨-, a, rest, -, rfl, -⟩ := Handoff.Queue.of_nextResult? hres
    · exact ⟨h.armed hc, rfl⟩
    · simp at hd
  · simp at hd

theorem parts {rx : Receiving} {k : Nat} {polled : Handoff.Polled String}
    {outbox : Handoff.Queue String Empty Unit} (h : Sound s) (hr : s.running = true)
    (hp : s.position = .active .transmit rx (.waiting k))
    (ho : s.outbox.poll k () = (polled, outbox))
    (hd : polled = .delivered .cancelled ∨ polled = .withdrawn) :
    Sound ({ s with outbox := outbox }.goto (.active .transmit rx s.parting)) := by
  obtain ⟨hs, rfl⟩ := h.ending_of_parts hp ho hd
  have hf := h.fits
  have hv := h.coherent.ne_none_of_ending hs
  constructor
  · exact h.coherent
  · rw [hp] at hf
    refine ⟨hf.1, fun hn => absurd hn hv, hf.2.2.1, fun hfail => ?_⟩
    rw [isFailing_parting] at hfail
    cases hfail
  · exact (ticket?_parting s).symm
  · simp [goto]
  · exact h.emptied
  · simp [goto, hr]
  · exact fun _ => trivial
  · exact h.panics

theorem idles {rx : Receiving} {k : Nat} {outbox : Handoff.Queue String Empty Unit} (h : Sound s)
    (hp : s.position = .active .transmit rx (.waiting k))
    (ho : s.outbox.poll k () = (.pending, outbox)) :
    Sound ({ s with outbox := outbox }.suspend (.active .receive rx (.waiting k))) := by
  have hf := h.fits
  obtain ⟨d, r, -, hpolled, -⟩ | ⟨-, -, w, hw, rfl⟩ := h.poll_waiting hp ho
  · cases hpolled
  · constructor
    · exact h.coherent
    · simp_all [suspend, Position.Fits]
    · exact hw
    · exact h.armed
    · exact h.emptied
    · simp_all [suspend, Position.CanRest, Position.Fits]
    · simp [suspend]
    · exact h.panics

/-! ### Steps that change the record -/

/-- A fault is met in three places. -/
theorem position_of_fault {e : Ending} (hf : s.fault? = some e) :
    s.position = .awaiting ∨ (∃ tx, s.position = .active .receive .reading tx) ∨
      ∃ rx tx, s.position = .active .transmit rx tx ∧ tx.ticket? = none := by
  unfold fault? at hf
  split at hf
  · exact .inl ‹_›
  · next tx hp => exact .inr (.inl ⟨tx, hp⟩)
  · next rx tx hp =>
    refine .inr (.inr ⟨rx, tx, hp, ?_⟩)
    cases tx <;> simp_all [transmitFault?]
  · cases hf

theorem fails {e : Ending} (h : Sound s) (hr : s.running = true) (hf : s.fault? = some e)
    (link : Link) (x : Transmission) :
    Sound ({ s with link := link, progress := { s.progress with transmission := x } }.fail e
      (s.position.reporting e) s.position.dismissed) := by
  have hfits := h.fits
  have hticket := h.ticket
  rw [fail_eq]
  constructor
  · simp [Progress.Coherent, Progress.judge]
  · obtain hp | ⟨tx, hp⟩ | ⟨rx, tx, hp, ht⟩ := position_of_fault hf <;>
      cases hv : s.progress.verdict <;>
      simp_all [Position.reporting, Position.dismissed, Position.Fits, Progress.judge]
  · obtain hp | ⟨tx, hp⟩ | ⟨rx, tx, hp, ht⟩ := position_of_fault hf <;>
      cases hv : s.progress.verdict <;>
      simp_all [Position.reporting, Position.dismissed]
  · exact fun _ => .inr rfl
  · simp
  · simp [hr]
  · intro _
    obtain hp | ⟨tx, hp⟩ | ⟨rx, tx, hp, ht⟩ := position_of_fault hf <;>
      cases s.progress.verdict <;>
      simp [hp, Position.reporting, Position.dismissed, Position.CanRun]
  · exact h.panics

theorem settled (h : Sound s) (position : t.position.Fits s.settleProgress.progress)
    (progress : t.progress = s.settleProgress.progress)
    (outbox : t.outbox = s.settleProgress.outbox) (ticket : t.position.ticket? = s.position.ticket?)
    (rests : t.running = false → t.position.CanRest)
    (runs : t.running = true → t.position.CanRun) (panicked : t.panicked = s.panicked) :
    Sound t := by
  have hticket := h.ticket
  rw [settleProgress_eq] at progress outbox
  constructor
  · rw [progress]
    simp [Progress.Coherent, Progress.judge]
  · rw [progress]
    rwa [settleProgress_eq] at position
  · rw [outbox, Handoff.Queue.ticket?_stop, hticket, ticket]
  · rw [stage, progress]
    exact fun _ => .inr rfl
  · rw [outbox]
    simp
  · exact rests
  · exact runs
  · rw [panicked]
    exact h.panics

theorem concludes {resolves : Bool} (h : Sound s) (hr : s.running = true)
    (hp : s.position = .finishing resolves) : Sound (s.conclude resolves) := by
  rw [conclude_eq]
  refine h.settled ?_ rfl rfl (by rw [hp]; rfl) ?_ (fun _ => trivial) ?_
  · rw [settleProgress_eq]
    rfl
  · simp [settleProgress_eq, hr]
  · rw [settleProgress_eq]

theorem finishes {reason : Ending} {resolves : Bool} (h : Sound s)
    (hp : s.position = .concluding reason resolves) : Sound (s.finish reason resolves) := by
  have hf := h.fits
  rw [hp] at hf
  rw [finish_eq, unhookEngine_eq]
  exact h.of_same ⟨_, _, rfl⟩ rfl hf (by rw [hp]; rfl) (fun _ => trivial) (by simp) rfl

/-- Whatever the future does next, the agreement stands. -/
theorem advances (h : Sound s) (hr : s.running = true) (ha : Advances s t) : Sound t := by
  have hc := h.coherent
  have hf := h.fits
  have hticket := h.ticket
  have harmed := h.armed
  have hemptied := h.emptied
  cases ha with
  | rests hp =>
    have hcan := h.runs hr
    obtain hp | hp | hp := hp <;> simp [hp, Position.CanRun] at hcan
  | goes hg => exact h.goes hr hg
  | sleeps hg => exact h.sleeps hg
  | shuts hg => exact h.shuts hr hg
  | prepares hp hv =>
    simp only [goto]
    constructor <;> simp_all [Progress.Coherent, Position.Fits, Position.CanRun, stage, h.panics]
  | begins hp hh =>
    rw [hp] at hf
    exact h.of_same ⟨_, _, rfl⟩ rfl hf (by rw [hp]; rfl) (by simp [emit, callback, goto, hr])
      (fun _ => trivial) rfl
  | abandons hp hh =>
    refine h.of_same ⟨_, _, rfl⟩ rfl ?_ ?_ (by simp [emit, goto, hr]) (fun _ => trivial) rfl
    · have hv : s.progress.verdict ≠ none := by
        unfold Progress.Coherent at hc
        obtain hp | hp | ⟨hp, -⟩ := hp <;> simp_all [Position.Fits]
      exact fun _ => hv
    · obtain hp | hp | ⟨hp, -⟩ := hp <;> simp [emit, goto, hp]
  | hopes hp ho hh =>
    have hready : s.progress.handshake.isReady = true := by
      cases hi : s.progress.handshake <;> simp_all [Position.Fits]
    simp only [suspendOnLink, suspend]
    constructor <;> simp_all [Progress.Coherent, Position.Fits, Position.CanRest, stage, h.panics]
  | opens hp ho =>
    rw [hp] at hf
    exact h.of_same ⟨_, _, rfl⟩ rfl hf (by rw [hp]; rfl) (by simp [goto, hr])
      (fun _ => trivial) rfl
  | fails hfault link => exact h.fails hr hfault link _
  | records hp => exact h.records hr hp
  | turnsAway hp hv =>
    simp only [goto]
    constructor <;> simp_all [Progress.Coherent, Position.Fits, Position.CanRun, stage, h.panics]
  | connects hp hv =>
    simp only [emit, callback, goto]
    constructor <;> simp_all [Progress.Coherent, Position.Fits, Position.CanRun, stage, h.panics]
  | hands hp hn hl =>
    refine h.of_same ⟨_, _, rfl⟩ rfl hf ?_ (by simp [emit, callback, hr])
      (fun _ => h.runs hr) rfl
    rfl
  | listens hp hn hl he =>
    have hready : s.progress.receive.isReady = true := by
      cases hi : s.progress.receive <;> simp_all [Position.Fits]
    have hstage := hc.isReady_iff.mp hready
    simp only [goto]
    constructor
    · unfold Progress.Coherent at hc ⊢
      obtain hs | hs := hstage <;> simp_all
    · rw [hp] at hf
      exact ⟨⟨hf.1.1, hf.1.2.1, by simp⟩, hf.2.1, by simp,
        fun ht => absurd (hf.2.2.2 ht).1 (by simp)⟩
    · rw [hticket, hp]
      rfl
    · exact harmed
    · exact hemptied
    · simp [hr]
    · exact fun _ => trivial
    · exact h.panics
  | asks hp hw => exact h.asks hr hp hw
  | isDenied hp hw => exact absurd hw (h.wait?_ne_none hp)
  | takes hp ho => exact h.takes hr hp ho
  | parts hp ho hd => exact h.parts hr hp ho hd
  | idles hp ho => exact h.idles hp ho
  | writes hp hl =>
    refine h.of_same ⟨_, _, rfl⟩ rfl ?_ ?_ (by simp [emit, goto, hr]) (fun _ => trivial) rfl
    · simp_all [emit, goto, Position.Fits]
    · simp [emit, goto, hp]
  | hasWritten hp hl hh =>
    refine h.of_same ⟨_, _, rfl⟩ rfl ?_ ?_ (by simp [setTransmission, goto, hr])
      (fun _ => trivial) rfl
    · simp_all [setTransmission, goto, Position.Fits]
    · simp [setTransmission, goto, hp]
  | announces hp hl =>
    refine h.of_same ⟨_, _, rfl⟩ rfl ?_ ?_ (by simp [emit, goto, hr]) (fun _ => trivial) rfl
    · simp_all [emit, goto, Position.Fits]
    · simp [emit, goto, hp]
  | lingers hp hl =>
    refine h.of_same ⟨_, _, rfl⟩ rfl ?_ ?_ ?_ (by simp [suspend]) rfl
    · simp_all [suspend, Position.Fits]
    · simp [suspend, hp]
    · simp_all [suspend, Position.CanRest, Position.Fits]
  | concludes hp => exact h.concludes hr hp
  | finishes hp => exact h.finishes hp

/-! ### Deeds -/

theorem sends (h : Sound s) (message : String) : Sound (s.send message) := by
  rw [send_eq]
  split
  · exact h
  · next he =>
    have hopen : s.stage ≠ .closing ∧ s.stage ≠ .closed := by
      simp_all [Progress.isEnding, stage]
    constructor
    · exact h.coherent
    · exact h.fits
    · rw [Handoff.Queue.ticket?_push]
      exact h.ticket
    · rw [Handoff.Queue.cancelled_push]
      exact h.armed
    · intro hs
      obtain hs | hs := hs
      · exact absurd hs hopen.1
      · exact absurd hs hopen.2
    · exact h.rests
    · exact h.runs
    · exact h.panics

theorem onStop (h : Sound s) : Sound s.onStop := by
  have hc := h.coherent
  have hf := h.fits
  have hticket := h.ticket
  have harmed := h.armed
  have hemptied := h.emptied
  unfold Progress.Coherent at hc
  rw [onStop_eq]
  constructor
  · rw [progress_onStop]
    unfold Progress.Coherent
    cases hs : s.progress.stage <;> cases hv : s.progress.verdict <;>
      simp_all [stage, Stage.stopped, Progress.judge]
  · rw [progress_onStop]
    cases hp : s.position <;> cases hs : s.progress.stage <;> cases hv : s.progress.verdict <;>
      simp_all [stage, Stage.stopped, Progress.judge, Position.Fits]
  · rw [outbox_onStop]
    split <;> simp [hticket]
  · rw [outbox_onStop, stage, progress_onStop]
    cases hs : s.progress.stage <;> simp_all [stage, Stage.stopped]
  · rw [outbox_onStop, stage, progress_onStop]
    cases hs : s.progress.stage <;> simp_all [stage, Stage.stopped]
  · exact h.rests
  · exact h.runs
  · exact h.panics

theorem ticket?_releasedOutbox (h : Sound s) : s.releasedOutbox.waiting.ticket? = none := by
  have ht := h.ticket
  unfold releasedOutbox
  split
  · next turn rx k hp =>
    rw [Handoff.Queue.ticket?_withdraw, if_pos (by rw [ht, hp]; rfl)]
  · next hp =>
    rw [ht]
    cases hpos : s.position with
    | active turn rx tx =>
      cases tx with
      | waiting k => exact absurd hpos (hp turn rx k)
      | _ => rfl
    | _ => rfl

/-- The agreement is a small one once the future is gone. -/
theorem of_over (position : t.position = .over) (running : t.running = false)
    (coherent : t.progress.Coherent) (closed : t.stage = .closed)
    (ticket : t.outbox.waiting.ticket? = none) (values : t.outbox.values = [])
    (panics : t.panicked = none ∨ ∃ message, t.panicked = some (.raised message)) :
    Sound t := by
  constructor
  · exact coherent
  · rw [position]
    exact closed
  · rw [position]
    exact ticket
  · exact fun _ => .inr closed
  · exact fun _ => values
  · rw [position]
    exact fun _ => trivial
  · simp [running]
  · exact panics

theorem tearDown (h : Sound s) (message : String) : Sound (s.tearDown (.raised message)) := by
  cases hr : s.running with
  | false =>
    rw [tearDown_of_not_running hr]
    exact ⟨h.coherent, h.fits, h.ticket, h.armed, h.emptied, h.rests, h.runs,
      .inr ⟨message, rfl⟩⟩
  | true =>
    have ht := tearDown_of_running hr (.raised message)
    obtain ⟨hprogress, r, b, hp⟩ | ⟨hprogress, hn⟩ := ht.progress
    · -- record and outbox were settled before the report that panicked
      obtain ⟨houtbox, -⟩ | ⟨-, hn⟩ := ht.outbox
      · have hclosed : s.stage = .closed := by
          have hf := h.fits
          rwa [hp] at hf
        refine .of_over ht.position ht.running ?_ ?_ ?_ ?_ (.inr ⟨message, ht.panicked⟩)
        · rw [hprogress]
          exact h.coherent
        · rw [stage, hprogress]
          exact hclosed
        · rw [houtbox, h.ticket, hp]
          rfl
        · rw [houtbox]
          exact h.emptied (.inr hclosed)
      · exact absurd hp (hn r b)
    · obtain ⟨-, r, b, hp⟩ | ⟨houtbox, -⟩ := ht.outbox
      · exact absurd hp (hn r b)
      · rw [settleProgress_eq] at hprogress
        refine .of_over ht.position ht.running ?_ ?_ ?_ ?_ (.inr ⟨message, ht.panicked⟩)
        · rw [hprogress]
          simp [Progress.Coherent, Progress.judge]
        · rw [stage, hprogress]
        · rw [houtbox, Handoff.Queue.ticket?_stop]
          exact h.ticket?_releasedOutbox
        · rw [houtbox]
          simp

theorem act (h : Sound s) (a : Act) : Sound (s.act a) := by
  obtain ⟨message, -, ha⟩ | ⟨message, -, ha⟩ | ⟨-, ha⟩ := act_cases s a
  · rw [ha]
    exact h.sends message
  · rw [ha]
    exact h.tearDown message
  · exact h.aside ha

theorem perform (h : Sound s) (d : Deed) : Sound (s.perform d) := by
  cases d with
  | act a => exact h.act a
  | engineStop => exact h.onStop
  | heard id => exact h.aside (.of_eq rfl rfl rfl rfl rfl rfl rfl rfl)

/-! ### Moves -/

theorem drops (h : Sound s) :
    Sound { s.releaseOperations with position := .finishing false, running := true } := by
  rw [releaseOperations_eq]
  have hvalues : s.releasedOutbox.values = s.outbox.values := by
    unfold releasedOutbox
    split <;> simp
  have hcancelled : s.releasedOutbox.cancelled = s.outbox.cancelled := by
    unfold releasedOutbox
    split <;> simp
  constructor
  · exact h.coherent
  · simp [Position.Fits]
  · exact h.ticket?_releasedOutbox
  · rw [hcancelled]
    exact h.armed
  · rw [hvalues]
    exact h.emptied
  · simp
  · exact fun _ => trivial
  · exact h.panics

theorem moves {m : Move} (h : Sound s) (hm : Moves s m t) : Sound t := by
  have hf := h.fits
  have hr := h.runs
  cases hm with
  | stays => exact h
  | acts a => exact h.act a
  | does hd => exact (h.aside (aside_doing s _)).perform _
  | advances hd hr ha => exact h.advances hr ha
  | hands hp hq =>
    rw [hp] at hf
    exact h.of_same ⟨_, _, rfl⟩ rfl hf (by rw [hp]; rfl) (fun _ => trivial)
      (fun _ => trivial) rfl
  | refuses hp ha =>
    exact h.of_same ⟨_, _, rfl⟩ rfl (by simp [Position.Fits]) (by rw [hp]; rfl) (by simp)
      (fun _ => trivial) rfl
  | resumes hr hp hq => exact h.of_same ⟨_, _, rfl⟩ rfl hf rfl (by simp) (fun _ => hp) rfl
  | misses hr hq hp => exact h.aside (.of_eq rfl rfl rfl rfl rfl rfl rfl rfl)
  | drops hr hp => exact h.drops
  | disowns hp =>
    rw [hp] at hf hr
    rw [unhookEngine_eq]
    exact h.of_same ⟨_, _, rfl⟩ rfl hf (by rw [hp]; rfl) (fun _ => trivial) hr rfl
  | shuts => exact h.aside (.of_eq rfl rfl rfl rfl rfl rfl rfl rfl)

theorem move (h : Sound s) (m : Move) : Sound (s.move m) :=
  h.moves (Session.moves s m)

theorem after (h : Sound s) (ms : List Move) : Sound (s.after ms) :=
  after_induction (P := fun _ t => Sound t) h (fun _ m ht => ht.move m) ms

end Sound

/-! ### Once something has ended the session

Neither a message nor a stop does anything then.  A stop would change the record while a handshake
can be interrupted or the session is active, and in both cases nothing has ended it.
-/

theorem send_of_judged {s : Session} (hv : s.progress.verdict ≠ none) (message : String) :
    s.send message = s := by
  have hending : s.progress.isEnding = true := by
    simp [Progress.isEnding, Option.isSome_iff_ne_none.mpr hv]
  rw [send_eq, if_pos hending]

theorem chooseReason_of_judged {s : Session} (hv : s.progress.verdict ≠ none) (r : CloseReason) :
    s.chooseReason r = s := by
  unfold chooseReason
  rw [if_neg (by simpa using hv)]

theorem Sound.onStop_of_judged {s : Session} (h : Sound s) (hv : s.progress.verdict ≠ none) :
    s.onStop = s := by
  have hc := h.coherent
  have hjudge : s.progress.judge .cancelled = s.progress := by
    obtain ⟨v, hv'⟩ := Option.ne_none_iff_exists'.mp hv
    have hfirst : some (s.progress.verdict.getD .cancelled) = s.progress.verdict := by rw [hv']; rfl
    rw [Progress.judge, hfirst]
  unfold Session.onStop
  rw [hjudge]
  unfold Progress.Coherent at hc
  cases hs : s.progress.stage with
  | handshaking =>
    rw [hs] at hc
    have hready : s.progress.handshake.isReady = false := by
      rw [Bool.eq_false_iff]
      exact fun hi => hv (hc.2.2.1 hi)
    simp only [stage, hs]
    unfold interruptHandshake
    split
    · next hi =>
      rw [hi] at hready
      cases hready
    · rfl
  | active =>
    rw [hs] at hc
    exact absurd hc.1 hv
  | _ => simp only [stage, hs]

/-! ### Panics are final -/

theorem panicked_advances {s t : Session} (h : Sound s) (ha : Advances s t) :
    t.panicked = s.panicked := by
  cases ha with
  | isDenied hp hw => exact absurd hw (h.wait?_ne_none hp)
  | shuts hg => rw [wireClosed_eq]; rfl
  | fails hf link => rw [fail_eq]
  | asks hp hw => rw [passOn_eq]; rfl
  | concludes hp => rw [conclude_eq, settleProgress_eq]
  | finishes hp => rw [finish_eq, unhookEngine_eq]; rfl
  | _ => rfl

theorem panicked_tearDown (s : Session) (cause : Panic) :
    (s.tearDown cause).panicked = some cause := by
  cases hr : s.running with
  | false => rw [tearDown_of_not_running hr]
  | true => exact (tearDown_of_running hr cause).panicked

theorem panicked_perform (s : Session) (d : Deed) :
    (s.perform d).panicked = s.panicked ∨
      ∃ message, (s.perform d).panicked = some (.raised message) := by
  cases d with
  | act a =>
    obtain ⟨message, -, ha⟩ | ⟨message, -, ha⟩ | ⟨-, ha⟩ := act_cases s a
    · refine .inl ?_
      show (s.act a).panicked = s.panicked
      rw [ha, send_eq]
      split <;> rfl
    · exact .inr ⟨message, by rw [perform, ha, panicked_tearDown]⟩
    · exact .inl ha.panicked
  | engineStop => exact .inl (by rw [perform, onStop_eq])
  | heard id => exact .inl rfl

theorem panicked_move {s : Session} (h : Sound s) (m : Move) :
    (s.move m).panicked = s.panicked ∨
      ∃ message, (s.move m).panicked = some (.raised message) := by
  generalize ht : s.move m = t
  have hm := moves s m
  rw [ht] at hm
  cases hm with
  | acts a => exact panicked_perform s (.act a)
  | does hd => exact panicked_perform _ _
  | advances hd hr ha => exact .inl (panicked_advances h ha)
  | drops hr hp => exact .inl (by rw [releaseOperations_eq])
  | disowns hp => exact .inl (by rw [unhookEngine_eq])
  | _ => exact .inl rfl

/-- A panic that is raised is what tore down the code that ran last. -/
theorem raised?_eq_none {s : Session} {m : Move} (calm : (s.move m).panicked = none) :
    s.raised? m = none := by
  have hdeed : ∀ (t : Session) (d : Deed), (t.perform d).panicked = none →
      d.raised? = none := by
    intro t d hcalm
    cases d with
    | act a =>
      cases a with
      | panic message =>
        rw [perform, Session.act, panicked_tearDown] at hcalm
        cases hcalm
      | _ => rfl
    | _ => rfl
  cases m with
  | act a => exact hdeed s (.act a) calm
  | tick =>
    cases hd : s.doing with
    | nil =>
      rw [raised?, performed?, hd]
      rfl
    | cons d rest =>
      rw [tick_of_cons hd] at calm
      rw [raised?_of_doing hd]
      exact hdeed _ d calm
  | _ => rfl

/-- A session without panics had none before. -/
theorem panicked_of_move {s : Session} (h : Sound s) {m : Move} (hm : (s.move m).panicked = none) :
    s.panicked = none := by
  obtain hp | ⟨message, hp⟩ := panicked_move h m
  · rw [← hp, hm]
  · rw [hm] at hp
    cases hp

/-! ### Every run -/

theorem Origin.sound (o : Origin) : Sound o.session := by
  constructor <;> simp [session, create, Settings.progress, Progress.Coherent, Position.Fits,
    Position.CanRest, Handoff.Waiting.ticket?, stage]

/-- **In every run, at every moment, record, position and outbox agree.** -/
theorem sound_after (o : Origin) (ms : List Move) : Sound (o.session.after ms) :=
  o.sound.after ms

/-- If no callback panicked, nothing did. -/
theorem panicked_eq_none {o : Origin} {ms : List Move}
    (calm : ∀ message, (o.session.after ms).panicked ≠ some (.raised message)) :
    (o.session.after ms).panicked = none := by
  obtain hp | ⟨message, hp⟩ := (sound_after o ms).panics
  · exact hp
  · exact absurd hp (calm message)

/-- What holds at first and survives every move without a panic holds after every run in which no
callback panicked. -/
theorem calm_induction {P : List Move → Session → Prop} {o : Origin} (start : P [] o.session)
    (step : ∀ ms s m, s = o.session.after ms → Sound s → (s.move m).panicked = none →
      P ms s → P (ms ++ [m]) (s.move m))
    {ms : List Move} (calm : (o.session.after ms).panicked = none) : P ms (o.session.after ms) := by
  induction ms using List.reverseRecOn with
  | nil => exact start
  | append_singleton ms m ih =>
    rw [after_concat] at calm ⊢
    have hs := sound_after o ms
    exact step ms _ m rfl hs calm (ih (panicked_of_move hs calm))

end Dialogue.Session
