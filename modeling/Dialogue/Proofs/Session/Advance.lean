/-
What the future can do next, said once.

`advance` is a match on the position with tests of the connection inside.  `Advances s t` lists its
outcomes: one constructor for each kind of effect, with everything that was tested on the way.  Some
kinds have many occurrences, and there the occurrences are data.  The future `Goes` to a position
and does nothing else, it `Sleeps` until the connection wakes it, or it meets a `fault?`.  An
invariant of a session is proved by going through this list; nobody has to open `advance` again.
-/
import Dialogue.Proofs.Session.Effects

namespace Dialogue.Session

/-! ### Faults -/

/-- The failure that the receive region observes next. -/
def receiveFault? (s : Session) : Option Ending :=
  if s.progress.receive = .pulled then none
  else
    match s.link.next? with
    | some (.ok _, _) => none
    | some (.error text, _) => some (.transport .read text)
    | none => if s.link.ended ∧ s.stage = .active then some .peerClosed else none

/-- The failure that the transmit region observes next. -/
def transmitFault? (s : Session) : Transmitting → Option Ending
  | .writing _ => s.link.sendFault.map (.transport .write)
  | .flushing => s.link.flushFault.map (.transport .write)
  | .announcing _ => s.link.sendFault.map (.transport .close)
  | .announced => s.link.flushFault.map (.transport .close)
  | .closing => s.link.closeFault.map (.transport .close)
  | _ => none

/-- The failure that the future observes next: the handshake failed, a frame could not be read or
written, the peer ended its side, or closing failed. -/
def fault? (s : Session) : Option Ending :=
  match s.position with
  | .awaiting =>
    match s.link.outcome with
    | some (.error text) => some (.transport .handshake text)
    | _ => none
  | .active .receive .reading _ => s.receiveFault?
  | .active .transmit _ tx => s.transmitFault? tx
  | _ => none

/-- Where the future goes after a fault, once the handler was told of it. -/
def Position.reporting : Position → Ending → Position
  | .awaiting, e => .refusing e
  | .active .receive _ tx, e => .active .receive (.failing e) tx
  | .active .transmit rx _, e => .active .transmit rx (.failing e)
  | p, _ => p

/-- Where the future goes after a fault that concerns nobody, and after one that was recorded. -/
def Position.dismissed : Position → Position
  | .awaiting | .refusing _ => .finishing true
  | .active .receive _ tx => .active .receive .done tx
  | .active .transmit rx _ => .active .transmit rx .done
  | p => p

/-- The failure that was reported to the handler and is about to be recorded. -/
def Position.reported? : Position → Option Ending
  | .refusing e => some e
  | .active .receive (.failing e) _ => some e
  | .active .transmit _ (.failing e) => some e
  | _ => none

/-- What is reported as the state of transmission once a write failed. -/
def Position.transmissionAfterFault : Position → Transmission → Transmission
  | .active .transmit _ (.writing _), _ | .active .transmit _ .flushing, _ => .idle
  | _, t => t

/-- The connection once a fault was met there: the outcome of the handshake was taken, a read error
was read. -/
def linkAfterFault (s : Session) : Link :=
  match s.position with
  | .awaiting => { s.link with outcome := none }
  | .active .receive .reading _ => s.link.next?.elim s.link (·.2)
  | _ => s.link

/-- Where the transmit region goes when it learns that it shall end. -/
def parting (s : Session) : Transmitting :=
  if s.stage = .closing then
    if s.link.framed then .announcing s.progress.closeReason.announcement else .closing
  else .done

theorem beginClose_eq (s : Session) (rx : Receiving) :
    s.beginClose rx = s.goto (.active .transmit rx s.parting) := by
  unfold beginClose parting
  split
  · split <;> rfl
  · rfl

/-! ### The list -/

/-- The future goes on to a position and does nothing else. -/
inductive Goes (s : Session) : Position → Prop
  | stopped (hp : s.position = .spawned) (hv : s.progress.verdict ≠ none) :
      Goes s (.finishing true)
  | resumed (hp : s.position = .handshaking) (hh : s.progress.handshake ≠ .pulled) :
      Goes s .awaiting
  | unclosable (hp : s.position = .discarding) (hf : s.link.closeFault.isSome = true) :
      Goes s (.finishing true)
  | hasRead {tx} (hp : s.position = .active .receive .done tx) :
      Goes s (.active .transmit .done tx)
  | interrupted {tx} (hp : s.position = .active .receive .reading tx)
      (hr : s.progress.receive = .pulled) : Goes s (.active .receive .done tx)
  | ranDry {tx} (hp : s.position = .active .receive .reading tx)
      (hr : s.progress.receive ≠ .pulled) (hn : s.link.next? = none) (he : s.link.ended = true)
      (hs : s.stage ≠ .active) : Goes s (.active .receive .done tx)
  | hasAnnounced {rx} (hp : s.position = .active .transmit rx .announced)
      (hf : s.link.flushFault = none) (hh : s.link.held = false) :
      Goes s (.active .transmit rx .closing)
  | bothDone (hp : s.position = .active .transmit .done .done) : Goes s (.finishing true)

/-- The future waits for the connection at a position. -/
inductive Sleeps (s : Session) : Position → Prop
  | discarding (hp : s.position = .discarding) (hf : s.link.closeFault = none)
      (hh : s.link.closeHeld = true) : Sleeps s .discarding
  | flushing {rx} (hp : s.position = .active .transmit rx .flushing)
      (hf : s.link.flushFault = none) (hh : s.link.held = true) :
      Sleeps s (.active .receive rx .flushing)
  | announced {rx} (hp : s.position = .active .transmit rx .announced)
      (hf : s.link.flushFault = none) (hh : s.link.held = true) :
      Sleeps s (.active .receive rx .announced)
  | closing {rx} (hp : s.position = .active .transmit rx .closing)
      (hf : s.link.closeFault = none) (hh : s.link.closeHeld = true) :
      Sleeps s (.active .receive rx .closing)

/-- The sink is closed, and the future goes on. -/
inductive Shuts (s : Session) : Position → Prop
  | discarding (hp : s.position = .discarding) (hf : s.link.closeFault = none)
      (hh : s.link.closeHeld = false) : Shuts s (.finishing true)
  | closing {rx} (hp : s.position = .active .transmit rx .closing)
      (hf : s.link.closeFault = none) (hh : s.link.closeHeld = false) :
      Shuts s (.active .transmit rx .done)

/-- What the future can do next. -/
inductive Advances (s : Session) : Session → Prop
  /-- There is nothing to run. -/
  | rests (hp : s.position = .engine ∨ s.position = .neverRun ∨ s.position = .over) :
      Advances s { s with running := false }
  | goes {p} (h : Goes s p) : Advances s (s.goto p)
  | sleeps {p} (h : Sleeps s p) : Advances s (s.suspendOnLink p)
  | shuts {p} (h : Shuts s p) : Advances s (s.wireClosed.goto p)
  /-- The transport is asked for the handshake. -/
  | prepares (hp : s.position = .spawned) (hv : s.progress.verdict = none) :
      Advances s ({ s with
        progress := { s.progress with
          stage := .handshaking
          handshake := .ready false } }.goto .preparing)
  | begins (hp : s.position = .preparing) (hh : s.progress.handshake ≠ .pulled) :
      Advances s (((s.emit .handshake).callback s.opening).goto .awaiting)
  | abandons (hp : s.position = .preparing ∨ s.position = .handshaking ∨
        s.position = .awaiting ∧ s.link.outcome = none)
      (hh : s.progress.handshake = .pulled) :
      Advances s ((s.emit .abandoned).goto (.finishing true))
  /-- The handshake waits. -/
  | hopes (hp : s.position = .awaiting) (ho : s.link.outcome = none)
      (hh : s.progress.handshake ≠ .pulled) :
      Advances s ({ s with
        progress := { s.progress with handshake := .ready true } }.suspendOnLink .handshaking)
  | opens (hp : s.position = .awaiting) (ho : s.link.outcome = some (.ok ())) :
      Advances s ({ s with link := { s.link with outcome := none } }.goto .opened)
  | fails {e} (hf : s.fault? = some e) (link : Link) (hl : link = s.linkAfterFault) :
      Advances s ({ s with
        link := link
        progress := { s.progress with
          transmission := s.position.transmissionAfterFault s.progress.transmission } }.fail e
        (s.position.reporting e) s.position.dismissed)
  | records {e} (hp : s.position.reported? = some e) : Advances s (s.record e s.position.dismissed)
  /-- The stream is open, but nobody wants it any more. -/
  | turnsAway (hp : s.position = .opened) (hv : s.progress.verdict ≠ none) :
      Advances s ({ s with progress := { s.progress with handshake := .absent } }.goto .discarding)
  | connects (hp : s.position = .opened) (hv : s.progress.verdict = none) :
      Advances s ((({ s with
        progress := { s.progress with
          handshake := .absent
          stage := .active
          receive := .ready false } }.emit (.connected s.name)).callback s.handler.onConnected).goto
            (.active .receive .reading .asking))
  /-- A message is handed to the handler. -/
  | hands {tx message link} (hp : s.position = .active .receive .reading tx)
      (hr : s.progress.receive ≠ .pulled) (hn : s.link.next? = some (.ok message, link)) :
      Advances s (({ s with link := link, handled := s.handled + 1 }.emit
        (.message message)).callback
        (s.handler.onMessage s.handled message))
  /-- The receive region waits for the next frame. -/
  | listens {tx} (hp : s.position = .active .receive .reading tx)
      (hr : s.progress.receive ≠ .pulled) (hn : s.link.next? = none) (he : s.link.ended = false) :
      Advances s ({ s with
        link := { s.link with listening := true }
        progress := { s.progress with receive := .ready true } }.goto
          (.active .transmit .reading tx))
  /-- The transmit region starts to wait on the outbox. -/
  | asks {rx t notice outbox} (hp : s.position = .active .transmit rx .asking)
      (hw : s.outbox.wait? (.future · none) = some (t, notice, outbox)) :
      Advances s (({ s with outbox := outbox }.passOn notice).goto
        (.active .transmit rx (.waiting t)))
  /-- Somebody else waits on the outbox. -/
  | isDenied {rx} (hp : s.position = .active .transmit rx .asking)
      (hw : s.outbox.wait? (.future · none) = none) : Advances s (s.tearDown .outboxTaken)
  | takes {rx t message outbox} (hp : s.position = .active .transmit rx (.waiting t))
      (ho : s.outbox.poll t () = (.delivered (.value message), outbox)) :
      Advances s (({ s with outbox := outbox }.setTransmission .sending).goto
        (.active .transmit rx (.writing message)))
  /-- The transmit region learns from the outbox that it shall end. -/
  | parts {rx t polled outbox} (hp : s.position = .active .transmit rx (.waiting t))
      (ho : s.outbox.poll t () = (polled, outbox))
      (hd : polled = .delivered .cancelled ∨ polled = .withdrawn) :
      Advances s ({ s with outbox := outbox }.goto (.active .transmit rx s.parting))
  | idles {rx t outbox} (hp : s.position = .active .transmit rx (.waiting t))
      (ho : s.outbox.poll t () = (.pending, outbox)) :
      Advances s ({ s with outbox := outbox }.suspend (.active .receive rx (.waiting t)))
  | writes {rx message} (hp : s.position = .active .transmit rx (.writing message))
      (hf : s.link.sendFault = none) :
      Advances s ((s.emit (.write message)).goto (.active .transmit rx .flushing))
  | hasWritten {rx} (hp : s.position = .active .transmit rx .flushing)
      (hf : s.link.flushFault = none) (hh : s.link.held = false) :
      Advances s ((s.setTransmission .idle).goto (.active .transmit rx .asking))
  | announces {rx frame} (hp : s.position = .active .transmit rx (.announcing frame))
      (hf : s.link.sendFault = none) :
      Advances s ((s.emit (.write frame)).goto (.active .transmit rx .announced))
  /-- The transmit region is done, and the receive region is not. -/
  | lingers {rx} (hp : s.position = .active .transmit rx .done) (hr : rx ≠ .done) :
      Advances s (s.suspend (.active .receive rx .done))
  | concludes {resolves} (hp : s.position = .finishing resolves) : Advances s (s.conclude resolves)
  | finishes {reason resolves} (hp : s.position = .concluding reason resolves) :
      Advances s (s.finish reason resolves)

/-! ### The list is complete -/

theorem Advances.of_fault {s t : Session} {e : Ending} {recording after : Position}
    (hf : s.fault? = some e) (link : Link) (hl : link = s.linkAfterFault)
    (ht : t = { s with
      link := link
      progress := { s.progress with
        transmission := s.position.transmissionAfterFault s.progress.transmission } })
    (hr : recording = s.position.reporting e) (ha : after = s.position.dismissed) :
    Advances s (t.fail e recording after) := by
  subst ht hr ha
  exact .fails hf link hl

theorem advances_awaitHandshake {s : Session} (hp : s.position = .awaiting) :
    Advances s s.awaitHandshake := by
  unfold awaitHandshake
  split
  · next ho => exact .opens hp ho
  · next text ho =>
    exact .of_fault (by simp [fault?, hp, ho]) { s.link with outcome := none }
      (by simp [linkAfterFault, hp]) (by simp [hp, Position.transmissionAfterFault])
        (by simp [hp, Position.reporting])
      (by simp [hp, Position.dismissed])
  · next ho =>
    split
    · next hh => exact .abandons (.inr (.inr ⟨hp, ho⟩)) hh
    · next hh => exact .hopes hp ho hh

theorem advances_receive {s : Session} {rx : Receiving} {tx : Transmitting}
    (hp : s.position = .active .receive rx tx) : Advances s (s.receive rx tx) := by
  have htr : s.position.transmissionAfterFault s.progress.transmission
      = s.progress.transmission := by simp [hp, Position.transmissionAfterFault]
  unfold receive
  cases rx with
  | done => exact .goes (.hasRead hp)
  | failing e =>
    have hd : s.position.dismissed = .active .receive .done tx := by simp [hp, Position.dismissed]
    rw [← hd]
    exact .records (by simp [hp, Position.reported?])
  | reading =>
    dsimp only
    split
    · next hr => exact .goes (.interrupted hp hr)
    · next hr =>
      split
      · next message link hn => exact .hands hp hr hn
      · next text link hn =>
        exact .of_fault (by simp [fault?, receiveFault?, hp, hr, hn]) link
          (by simp [linkAfterFault, hp, hn]) (by simp [htr]) (by simp [hp, Position.reporting])
            (by simp [hp, Position.dismissed])
      · next hn =>
        split
        · next he =>
          split
          · next hs =>
            exact .of_fault (by simp [fault?, receiveFault?, hp, hr, hn, he, hs]) s.link
              (by simp [linkAfterFault, hp, hn]) (by simp [htr]) (by simp [hp, Position.reporting])
                (by simp [hp, Position.dismissed])
          · next hs => exact .goes (.ranDry hp hr hn he hs)
        · next he => exact .listens hp hr hn (by simpa using he)

theorem advances_failTransmit {s t : Session} {rx : Receiving} {tx : Transmitting} {phase : Phase}
    {text : String} (hp : s.position = .active .transmit rx tx)
    (hf : s.transmitFault? tx = some (.transport phase text))
    (ht : t = { s with progress := { s.progress with
      transmission := s.position.transmissionAfterFault s.progress.transmission } }) :
    Advances s (t.failTransmit rx phase text) :=
  .of_fault (by simp [fault?, hp, hf]) s.link (by simp [linkAfterFault, hp]) ht
    (by simp [hp, Position.reporting])
    (by simp [hp, Position.dismissed])

theorem advances_transmit {s : Session} {rx : Receiving} {tx : Transmitting}
    (hp : s.position = .active .transmit rx tx) : Advances s (s.transmit rx tx) := by
  unfold transmit
  cases tx with
  | asking =>
    dsimp only
    split
    · next hw => exact .asks hp hw
    · next hw => exact .isDenied hp hw
  | waiting t =>
    dsimp only
    have parts : ∀ {polled outbox}, s.outbox.poll t () = (polled, outbox) →
        polled = .delivered .cancelled ∨ polled = .withdrawn →
        Advances s ({ s with outbox := outbox }.beginClose rx) := by
      intro polled outbox ho hd
      rw [beginClose_eq]
      exact .parts hp ho hd
    split
    · next m hm => exact .takes hp (Prod.ext hm rfl)
    · next hm => exact parts (Prod.ext hm rfl) (.inl rfl)
    · next hm => exact parts (Prod.ext hm rfl) (.inr rfl)
    · next hm => exact .idles hp (Prod.ext hm rfl)
  | writing message =>
    dsimp only
    split
    · next hf =>
      exact advances_failTransmit hp (by simp [transmitFault?, hf])
        (by simp [hp, setTransmission, Position.transmissionAfterFault])
    · next hf => exact .writes hp hf
  | flushing =>
    dsimp only
    split
    · next hf =>
      exact advances_failTransmit hp (by simp [transmitFault?, hf])
        (by simp [hp, setTransmission, Position.transmissionAfterFault])
    · next hf =>
      split
      · next hh => exact .sleeps (.flushing hp hf hh)
      · next hh => exact .hasWritten hp hf (by simpa using hh)
  | announcing frame =>
    dsimp only
    split
    · next hf =>
      have htr : s.position.transmissionAfterFault s.progress.transmission
          = s.progress.transmission := by simp [hp, Position.transmissionAfterFault]
      exact advances_failTransmit hp (by simp [transmitFault?, hf]) (by rw [htr])
    · next hf => exact .announces hp hf
  | announced =>
    dsimp only
    split
    · next hf =>
      have htr : s.position.transmissionAfterFault s.progress.transmission
          = s.progress.transmission := by simp [hp, Position.transmissionAfterFault]
      exact advances_failTransmit hp (by simp [transmitFault?, hf]) (by rw [htr])
    · next hf =>
      split
      · next hh => exact .sleeps (.announced hp hf hh)
      · next hh => exact .goes (.hasAnnounced hp hf (by simpa using hh))
  | closing =>
    dsimp only
    split
    · next hf =>
      have htr : s.position.transmissionAfterFault s.progress.transmission
          = s.progress.transmission := by simp [hp, Position.transmissionAfterFault]
      exact advances_failTransmit hp (by simp [transmitFault?, hf]) (by rw [htr])
    · next hf =>
      split
      · next hh => exact .sleeps (.closing hp hf hh)
      · next hh => exact .shuts (.closing hp hf (by simpa using hh))
  | failing e =>
    have hd : s.position.dismissed = .active .transmit rx .done := by simp [hp, Position.dismissed]
    dsimp only
    rw [← hd]
    exact .records (by simp [hp, Position.reported?])
  | done =>
    cases rx with
    | done => exact .goes (.bothDone hp)
    | reading => exact .lingers hp (by simp)
    | failing e => exact .lingers hp (by simp)

/-- The list is complete. -/
theorem advances (s : Session) : Advances s s.advance := by
  unfold advance
  split
  · next hp => exact .rests (.inl hp)
  · next hp => exact .rests (.inr (.inl hp))
  · next hp => exact .rests (.inr (.inr hp))
  · next hp =>
    unfold begin
    split
    · next hv => exact .goes (.stopped hp (Option.isSome_iff_ne_none.mp hv))
    · next hv => exact .prepares hp (by simpa using hv)
  · next hp =>
    unfold beginHandshake
    split
    · next hh => exact .abandons (.inl hp) hh
    · next hh => exact .begins hp hh
  · next hp =>
    unfold resumeHandshake
    split
    · next hh => exact .abandons (.inr (.inl hp)) hh
    · next hh => exact .goes (.resumed hp hh)
  · next hp => exact advances_awaitHandshake hp
  · next e hp =>
    have hd : s.position.dismissed = .finishing true := by simp [hp, Position.dismissed]
    rw [← hd]
    exact .records (by simp [hp, Position.reported?])
  · next hp =>
    unfold enterActive
    dsimp only
    split
    · next hv => exact .turnsAway hp (Option.isSome_iff_ne_none.mp hv)
    · next hv => exact .connects hp (by simpa using hv)
  · next hp =>
    unfold discard
    split
    · next hf => exact .goes (.unclosable hp (by simp [hf]))
    · next hf =>
      split
      · next hh => exact .sleeps (.discarding hp hf hh)
      · next hh => exact .shuts (.discarding hp hf (by simpa using hh))
  · next hp => exact advances_receive hp
  · next hp => exact advances_transmit hp
  · next hp => exact .concludes hp
  · next hp => exact .finishes hp

/-! ### Moves -/

/-- There is something to run. -/
def Position.CanRun : Position → Prop
  | engine | neverRun | .over => False
  | _ => True

/-- What a move does. -/
inductive Moves (s : Session) : Move → Session → Prop
  | stays {m} : Moves s m s
  | acts (a : Act) : Moves s (.act a) (s.act a)
  | does {d rest} (hd : s.doing = d :: rest) : Moves s .tick ({ s with doing := rest }.perform d)
  | advances {t} (hd : s.doing = []) (hr : s.running = true) (h : Advances s t) : Moves s .tick t
  /-- The engine is handed over. -/
  | hands {m queued} (hp : s.position = .engine) (hq : queued = true ∨ queued = s.queued) :
      Moves s m { s with position := .spawned, queued := queued }
  /-- The engine is refused, and so the future is dropped. -/
  | refuses (hp : s.position = .engine) (ha : s.accepting = false) :
      Moves s .spawn { s with position := .finishing false, running := true }
  | resumes {m queued} (hr : s.running = false) (hp : s.position.CanRun)
      (hq : queued = s.queued ∨ m = .turn ∧ s.queued = true ∧ queued = false) :
      Moves s m { s with queued := queued, running := true }
  /-- The task had been woken, but its future was gone. -/
  | misses (hr : s.running = false) (hq : s.queued = true) (hp : ¬ s.position.CanRun) :
      Moves s .turn { s with queued := false }
  | drops (hr : s.running = false) (hp : s.position.CanRun) :
      Moves s .drop { s.releaseOperations with position := .finishing false, running := true }
  | disowns (hp : s.position = .engine) :
      Moves s .dropEngine { s.unhookEngine with position := .neverRun }
  | shuts : Moves s .shutdown { s with accepting := false }

theorem resume_cases (s : Session) :
    ¬ s.position.CanRun ∧ s.resume = s ∨
      s.position.CanRun ∧ s.resume = { s with running := true } := by
  unfold resume
  cases s.position <;> simp [Position.CanRun]

theorem dropFuture_cases (s : Session) :
    s.dropFuture = s ∨ s.position.CanRun ∧
      s.dropFuture = { s.releaseOperations
        with position := .finishing false, running := true } := by
  unfold dropFuture
  cases s.position <;> simp [Position.CanRun]

/-- A move does one of these things. -/
theorem moves (s : Session) (m : Move) : Moves s m (s.move m) := by
  unfold move
  cases m with
  | tick =>
    simp only [tick]
    split
    · next hd => exact .does hd
    · next hd =>
      split
      · next hr => exact .advances hd hr (Session.advances s)
      · exact .stays
  | act a => exact .acts a
  | serve =>
    dsimp only
    split
    · next hp => exact .hands hp (.inr rfl)
    · exact .stays
  | spawn =>
    simp only [spawn]
    split
    · next hp =>
      split
      · exact .hands hp (.inl rfl)
      · next ha => exact .refuses hp (by simpa using ha)
    · exact .stays
  | turn =>
    dsimp only
    split
    · next h =>
      simp only [Bool.and_eq_true, Bool.not_eq_true'] at h
      obtain ⟨hp, hres⟩ | ⟨hp, hres⟩ := resume_cases { s with queued := false }
      · rw [hres]
        exact .misses h.2 h.1 hp
      · rw [hres]
        exact .resumes h.2 hp (.inr ⟨rfl, h.1, rfl⟩)
    · exact .stays
  | poll =>
    dsimp only
    split
    · exact .stays
    · next h =>
      obtain ⟨-, hres⟩ | ⟨hp, hres⟩ := resume_cases s
      · rw [hres]
        exact .stays
      · rw [hres]
        exact .resumes (by simpa using h) hp (.inl rfl)
  | drop =>
    dsimp only
    split
    · exact .stays
    · next h =>
      obtain hres | ⟨hp, hres⟩ := dropFuture_cases s
      · rw [hres]
        exact .stays
      · rw [hres]
        exact .drops (by simpa using h) hp
  | dropEngine =>
    dsimp only
    split
    · next hp => exact .disowns hp
    · exact .stays
  | shutdown => exact .shuts

/-! ### The single step -/

theorem tick_of_cons {s : Session} {d : Deed} {rest : List Deed} (hd : s.doing = d :: rest) :
    s.move .tick = { s with doing := rest }.perform d := by
  simp [move, tick, hd]

theorem tick_of_running {s : Session} (hd : s.doing = []) (hr : s.running = true) :
    s.move .tick = s.advance := by
  simp [move, tick, hd, hr]

theorem tick_of_quiet {s : Session} (hd : s.doing = []) (hr : s.running = false) :
    s.move .tick = s := by
  simp [move, tick, hd, hr]

/-- An act that is performed in a move is someone else's, or it is the next thing to do. -/
theorem move_of_performed {s : Session} {m : Move} {a : Act} (h : s.performed? m = some a) :
    ∃ deeds, s.move m = { s with doing := deeds }.act a ∧
      (deeds = s.doing ∨ s.doing = .act a :: deeds) := by
  unfold performed? at h
  split at h
  · cases h
    exact ⟨s.doing, rfl, .inl rfl⟩
  · cases hd : s.doing with
    | nil =>
      rw [hd] at h
      cases h
    | cons d rest =>
      rw [hd] at h
      cases d with
      | act b =>
        cases h
        exact ⟨rest, tick_of_cons hd, .inr rfl⟩
      | engineStop => cases h
      | heard id => cases h
  · cases h

end Dialogue.Session
