/-
How a session says farewell.

A session that is stopped while it is active does not break off.  The write that is in flight
completes, the peer is given the reason in a close frame, if the transport has one, and the sink is
closed; all the while frames of the peer are handed on, until the peer ends its side.  Only then is
the end reported.

What is still to happen at the sink can be read off the place of the transmit region: it is the
`agenda`.  `Departs` says what the future of a closing session does next, and that the agenda gets
shorter by what happens at the sink and by nothing else.  `Parting` says how far a session has come.
-/
import Dialogue.Proofs.Session.Choosing
import Dialogue.Proofs.Session.Sink
import Dialogue.Proofs.Session.Waking

namespace Dialogue.Session

/-! ### What is to be said -/

/-- The farewell to the peer: a close frame with the reason, if the transport has one, and the
end. -/
def farewell (framed : Bool) (reason : CloseReason) : List Wire :=
  (if framed then [.started (.close reason.announcement), .completed] else []) ++ [.shut]

/-- What is missing from the write in flight. -/
def Transmitting.outstanding : Transmitting → List Wire
  | writing message => [.started (.message message), .completed]
  | flushing => [.completed]
  | asking | waiting _ | announcing _ | announced | closing | failing _ | done => []

@[inherit_doc Transmitting.outstanding]
def Position.outstanding : Position → List Wire
  | active _ _ tx => tx.outstanding
  | _ => []

/-- What the sink has still to do for the transmit region of a session that closes. -/
def Transmitting.agenda (framed : Bool) (reason : CloseReason) : Transmitting → List Wire
  | asking | waiting _ => farewell framed reason
  | writing message => .started (.message message) :: .completed :: farewell framed reason
  | flushing => .completed :: farewell framed reason
  | announcing text => [.started (.close text), .completed, .shut]
  | announced => [.completed, .shut]
  | closing => [.shut]
  | failing _ | done => []

theorem Transmitting.agenda_of_isOpen {tx : Transmitting} (h : tx.isOpen = true) (framed : Bool)
    (reason : CloseReason) :
    tx.agenda framed reason = tx.outstanding ++ farewell framed reason := by
  cases tx <;> first | rfl | cases h

/-! ### What is heard of the peer -/

variable {s t : Session}

/-- What arrives at the connection by an act. -/
def Act.arrival? : Act → Option (Except String String)
  | link (.peer frame) => some (.ok frame)
  | link (.peerError error) => some (.error error)
  | _ => none

/-- What arrives at the connection in a move. -/
def arrival? (s : Session) (m : Move) : Option (Except String String) :=
  (s.performed? m).bind Act.arrival?

/-- Nothing arrives but by an act, from outside or of a callback. -/
theorem arrival?_eq_none {s : Session} {m : Move} (htick : m ≠ .tick)
    (hact : ¬∃ a, m = .act a) : s.arrival? m = none := by
  cases m with
  | tick => exact absurd rfl htick
  | act a => exact absurd ⟨a, rfl⟩ hact
  | _ => rfl

/-- What arrives at the connection, in order. -/
def arrivals (s : Session) (ms : List Move) : List (Except String String) :=
  seen move arrival? s ms

/-- The message that the handler is given. -/
def Event.message? : Event → Option String
  | message text => some text
  | _ => none

/-- The messages that the handler was given, in order. -/
def received (s : Session) : List String :=
  s.journal.filterMap Event.message?

theorem arrivals_concat (s : Session) (ms : List Move) (m : Move) :
    s.arrivals (ms ++ [m]) = s.arrivals ms ++ ((s.after ms).arrival? m).toList :=
  seen_concat move arrival? s ms m

theorem received_of_cons {e : Event} (h : t.log = e :: s.log) :
    t.received = s.received ++ e.message?.toList :=
  filterMap_journal_of_cons Event.message? h

theorem received_of_silent {e : Event} (h : t.log = e :: s.log)
    (he : e.message? = none) : t.received = s.received := by
  rw [received_of_cons h, he]
  exact List.append_nil _

/-! ### While the future stands still -/

/-- A step in which the future goes nowhere, with what arrives at the connection in it. -/
structure Stands (s t : Session) (arrival : Option (Except String String)) : Prop where
  position : t.position = s.position
  result : t.result = s.result
  received : t.received = s.received
  framed : t.link.framed = s.link.framed
  unread : t.link.unread = s.link.unread ++ arrival.toList
  stage : s.stage ≠ .active → t.stage = s.stage
  /-- The engine of an active session does not miss the stop. -/
  doing : s.stage = .active → .engineStop ∈ s.doing →
    t.stage = .active ∧ .engineStop ∈ t.doing ∨ t.stage = .closing

namespace Stands

/-- The connection is as it was. -/
theorem of_link (position : t.position = s.position) (result : t.result = s.result)
    (received : t.received = s.received) (link : t.link = s.link) (stage : t.stage = s.stage)
    (doing : .engineStop ∈ s.doing → .engineStop ∈ t.doing) : Stands s t none := by
  refine ⟨position, result, received, by rw [link], ?_, fun _ => stage, ?_⟩
  · rw [link]
    exact (List.append_nil _).symm
  · intro hactive hmem
    exact .inl ⟨stage.trans hactive, doing hmem⟩

theorem of_onLink (s : Session) (act : LinkAct) :
    Stands s (s.onLink act) (Act.link act).arrival? := by
  rw [onLink, touch_eq]
  refine ⟨rfl, rfl, rfl, ?_, ?_, fun _ => rfl, fun hactive hmem => .inl ⟨hactive, hmem⟩⟩
  · cases act <;> rfl
  · cases act with
    | peer frame => exact Link.unread_deliver s.link (.ok frame)
    | peerError error => exact Link.unread_deliver s.link (.error error)
    | _ => exact (List.append_nil _).symm

/-- Only a panic moves the future. -/
theorem of_act (s : Session) {a : Act} (quiet : a.raised? = none) :
    Stands s (s.act a) a.arrival? := by
  cases a with
  | send message =>
    rw [act, send_eq]
    split <;> exact .of_link rfl rfl rfl rfl rfl id
  | echo =>
    rw [act, send_eq]
    split <;> exact .of_link rfl rfl rfl rfl rfl id
  | stop => exact .of_link rfl rfl rfl rfl rfl (List.mem_append_right _)
  | stopWith r =>
    rw [act, chooseReason_eq]
    exact .of_link rfl rfl rfl rfl rfl (List.mem_append_right _)
  | note => exact .of_link rfl rfl (received_of_silent rfl rfl) rfl rfl id
  | panic message => cases quiet
  | closed id =>
    simp only [act, createWaiter]
    split <;> split <;> exact .of_link rfl rfl rfl rfl rfl fun hmem => hmem
  | listen id acts =>
    simp only [act, listen, unhookStop_eq]
    split
    · exact .of_link rfl rfl rfl rfl rfl fun hmem => hmem
    · exact .of_link rfl rfl rfl rfl rfl (List.mem_append_right _)
  | unlisten id =>
    simp only [act, unlisten, unhookStop_eq]
    split <;> exact .of_link rfl rfl rfl rfl rfl fun hmem => hmem
  | tokenFired => exact .of_link rfl rfl rfl rfl rfl id
  | debug => exact .of_link rfl rfl rfl rfl rfl id
  | link act => exact of_onLink s act

theorem of_onStop (s : Session) (deeds : List Deed) :
    Stands s (onStop { s with doing := deeds }) none := by
  have hstage : (onStop { s with doing := deeds }).stage = s.stage.stopped := by
    rw [Session.stage, progress_onStop]
    rfl
  refine ⟨?_, ?_, ?_, ?_, ?_, ?_, ?_⟩
  · rw [onStop_eq]
  · rw [onStop_eq]
  · rw [onStop_eq]
    rfl
  · rw [onStop_eq]
  · rw [onStop_eq]
    exact (List.append_nil _).symm
  · intro hactive
    rw [hstage]
    unfold Stage.stopped
    split
    · next he => exact absurd he hactive
    · rfl
  · intro hactive _
    rw [hstage, hactive]
    exact .inr rfl

/-- Whatever is done next is no deed of the engine, or the engine learns of the stop. -/
theorem of_doing {d : Deed} {rest : List Deed} (hd : s.doing = d :: rest)
    (quiet : d.raised? = none) :
    Stands s ({ s with doing := rest }.perform d) (d.act?.bind Act.arrival?) := by
  have hrest : d ≠ .engineStop → .engineStop ∈ s.doing → .engineStop ∈ rest := by
    intro hne hmem
    rw [hd] at hmem
    rcases List.mem_cons.mp hmem with he | hmem
    · exact absurd he.symm hne
    · exact hmem
  cases d with
  | act a =>
    have hact := of_act { s with doing := rest } (a := a) quiet
    exact ⟨hact.position, hact.result, hact.received, hact.framed, hact.unread, hact.stage,
      fun hactive hmem => hact.doing hactive (hrest (by simp) hmem)⟩
  | engineStop => exact of_onStop s rest
  | heard id => exact .of_link rfl rfl rfl rfl rfl (hrest (by simp))

/-- **The future goes one position further, or it stands still**, unless it is let go. -/
theorem of_move {m : Move} (hp : s.position ≠ .engine) (calm : s.raised? m = none)
    (kept : ¬ s.LetsGo m) :
    (m = .tick ∧ s.doing = [] ∧ s.running = true ∧ Advances s (s.move m)) ∨
      Stands s (s.move m) (s.arrival? m) ∧ s.wire? m = none := by
  by_cases htick : m = .tick
  · subst htick
    cases hd : s.doing with
    | cons d rest =>
      rw [raised?_of_doing hd] at calm
      have harrival : s.arrival? .tick = d.act?.bind Act.arrival? := by
        rw [arrival?, performed?, hd]
        rfl
      refine .inr ⟨?_, ?_⟩
      · rw [tick_of_cons hd, harrival]
        exact of_doing hd calm
      · rw [wire?, hd]
        rfl
    | nil =>
      cases hr : s.running with
      | true =>
        rw [tick_of_running hd hr]
        exact .inl ⟨rfl, rfl, rfl, advances s⟩
      | false =>
        have harrival : s.arrival? .tick = none := by
          rw [arrival?, performed?, hd]
          rfl
        rw [tick_of_quiet hd hr, harrival, wire?, hd, hr]
        exact .inr ⟨.of_link rfl rfl rfl rfl rfl id, rfl⟩
  · refine .inr ?_
    have hwire : s.wire? m = none := by
      cases m with
      | tick => exact absurd rfl htick
      | _ => rfl
    refine ⟨?_, hwire⟩
    by_cases hact : ∃ a, m = .act a
    · obtain ⟨a, rfl⟩ := hact
      exact of_act s calm
    · rw [arrival?_eq_none htick hact]
      have hm := moves s m
      generalize s.move m = t at hm
      cases hm with
      | acts a => exact absurd ⟨a, rfl⟩ hact
      | does hd => exact absurd rfl htick
      | advances hd hr ha => exact absurd rfl htick
      | hands hp' hq => exact absurd hp' hp
      | refuses hp' ha => exact absurd hp' hp
      | disowns hp' => exact absurd hp' hp
      | drops hr hcan => exact absurd ⟨hr, hcan⟩ kept
      | stays => exact .of_link rfl rfl rfl rfl rfl id
      | resumes hr hcan hq => exact .of_link rfl rfl rfl rfl rfl id
      | misses hr hq hcan => exact .of_link rfl rfl rfl rfl rfl id
      | shuts => exact .of_link rfl rfl rfl rfl rfl id

end Stands

/-! ### What the future of a closing session does next -/

/-- A step of the two regions of a closing session, with what the sink does in it. -/
inductive Departs (s t : Session) : Option Wire → Prop
  /-- A frame of the peer is handed to the handler. -/
  | hears {tx text} (hp : s.position = .active .receive .reading tx)
      (position : t.position = s.position)
      (unread : s.link.unread = .ok text :: t.link.unread)
      (received : t.received = s.received ++ [text]) : Departs s t none
  /-- The peer has ended its side. -/
  | hearsOut {tx} (hp : s.position = .active .receive .reading tx)
      (position : t.position = .active .receive .done tx) (ended : s.link.ended = true)
      (unread : s.link.unread = []) (received : t.received = s.received) : Departs s t none
  /-- The transmit region does what is next on its agenda, if the sink lets it. -/
  | writes {turn turn' rx tx tx' w} (hp : s.position = .active turn rx tx)
      (position : t.position = .active turn' rx tx')
      (agenda : w.toList ++ tx'.agenda s.link.framed s.progress.closeReason
        = tx.agenda s.link.framed s.progress.closeReason)
      (unread : t.link.unread = s.link.unread) (received : t.received = s.received) : Departs s t w
  /-- Both regions are done. -/
  | ends (hp : s.position = .active .transmit .done .done) (position : t.position = .finishing true)
      (received : t.received = s.received) : Departs s t none

/-- Such a step leaves the record of progress and the kind of transport alone. -/
structure Continues (s t : Session) : Prop where
  stage : t.stage = .closing
  closeReason : t.progress.closeReason = s.progress.closeReason
  framed : t.link.framed = s.link.framed

theorem agenda_parting (h : s.stage = .closing) :
    s.parting.agenda s.link.framed s.progress.closeReason
      = farewell s.link.framed s.progress.closeReason := by
  unfold parting farewell
  rw [if_pos h]
  cases s.link.framed <;> rfl

theorem framed_of_next? {l l' : Link} {a : Except String String} (h : l.next? = some (a, l')) :
    l'.framed = l.framed := by
  unfold Link.next? at h
  split at h
  · cases h
    rfl
  · split at h <;> cases h
    rfl

/-- Nothing is buffered when the session closes. -/
theorem not_taken_of_closing {rx : Receiving} {k : Nat} {message : String}
    {outbox : Handoff.Queue String Empty Unit} (hs : Sound s) (hclosing : s.stage = .closing)
    (hp : s.position = .active .transmit rx (.waiting k)) :
    s.outbox.poll k () ≠ (.delivered (.value message), outbox) := by
  intro ho
  obtain ⟨d, r, hd, hpolled, -⟩ | ⟨-, hpolled, -⟩ := hs.poll_waiting hp ho
  · cases hpolled
    obtain ⟨-, hd', -⟩ | ⟨-, a, rest, hvalues, -, -⟩ := Handoff.Queue.of_nextResult? hd
    · cases hd'
    · have hempty := hs.emptied (.inl hclosing)
      rw [hvalues] at hempty
      cases hempty
  · cases hpolled

/-- No failure was reported to the handler of a closing session. -/
theorem reported?_of_closing (hs : Sound s) (hv : s.progress.verdict = some .cancelled) :
    s.position.reported? = none := by
  have hfits := hs.fits
  cases hp : s.position with
  | refusing e =>
    rw [hp] at hfits
    exact absurd (hv.symm.trans hfits.1) nofun
  | active turn rx tx =>
    rw [hp] at hfits
    have hrx : rx.isFailing = false := by
      by_contra h
      exact absurd (hv.symm.trans (hfits.2.2.1 (by simpa using h)).2) nofun
    have htx : tx.isFailing = false := by
      by_contra h
      exact absurd (hv.symm.trans (hfits.2.2.2 (by simpa using h)).2) nofun
    exact reported?_active hrx htx
  | _ => rfl

theorem Sound.cancelled_of_closing (hs : Sound s) (hclosing : s.stage = .closing) :
    s.progress.verdict = some .cancelled := by
  have hc := hs.coherent
  unfold Progress.Coherent at hc
  rw [show s.progress.stage = .closing from hclosing] at hc
  exact hc.1

/-- **A closing session to which nothing happens departs.** -/
theorem departs_of_advances {turn : Turn} {rx : Receiving} {tx : Transmitting} (hs : Sound s)
    (hclosing : s.stage = .closing) (hp : s.position = .active turn rx tx)
    (hf : s.fault? = none) (ha : Advances s t) :
    Continues s t ∧ Departs s t (s.position.wire? s.link) := by
  have departs : ∀ w, s.position.wire? s.link = w → Continues s t → Departs s t w →
      Continues s t ∧ Departs s t (s.position.wire? s.link) := by
    intro w hwire hcontinues hdeparts
    rw [hwire]
    exact ⟨hcontinues, hdeparts⟩
  cases ha with
  | goes hg =>
    cases hg with
    | hasRead hp' =>
      exact departs none (by rw [hp']; rfl) ⟨hclosing, rfl, rfl⟩ (.writes hp' rfl rfl rfl rfl)
    | interrupted hp' hr =>
      have hready := hs.coherent.isReady_iff.mpr (.inr hclosing)
      rw [hr] at hready
      cases hready
    | ranDry hp' hr hn he hst =>
      exact departs none (by rw [hp']; rfl) ⟨hclosing, rfl, rfl⟩
        (.hearsOut hp' rfl he (Link.next?_eq_none_iff.mp hn) rfl)
    | hasAnnounced hp' hl hh =>
      exact departs (some .completed) (by simp [Position.wire?, hp', hl, hh])
        ⟨hclosing, rfl, rfl⟩
        (.writes hp' rfl rfl rfl rfl)
    | bothDone hp' =>
      exact departs none (by rw [hp']; rfl) ⟨hclosing, rfl, rfl⟩ (.ends hp' rfl rfl)
    | stopped hp' hv => simp_all
    | resumed hp' hh => simp_all
    | unclosable hp' hl => simp_all
  | sleeps hg =>
    refine departs none (wire?_of_sleeps hg) ⟨hclosing, rfl, rfl⟩ ?_
    cases hg with
    | discarding hp' hl hh => simp_all
    | flushing hp' hl hh => exact .writes hp' rfl rfl rfl rfl
    | announced hp' hl hh => exact .writes hp' rfl rfl rfl rfl
    | closing hp' hl hh => exact .writes hp' rfl rfl rfl rfl
  | shuts hg =>
    rw [wireClosed_eq] at departs ⊢
    cases hg with
    | discarding hp' hl hh => simp_all
    | closing hp' hl hh =>
      exact departs (some .shut) (by simp [Position.wire?, hp', hl, hh]) ⟨hclosing, rfl, rfl⟩
        (.writes hp' rfl rfl rfl (received_of_silent rfl rfl))
  | fails hfault link =>
    rw [hf] at hfault
    cases hfault
  | records hp' =>
    rw [reported?_of_closing hs (hs.cancelled_of_closing hclosing)] at hp'
    cases hp'
  | @hands _ message _ hp' hr hn =>
    exact departs none (by rw [hp']; rfl) ⟨hclosing, rfl, framed_of_next? hn⟩
      (.hears hp' rfl (Link.unread_of_next? hn) (received_of_cons (e := .message message) rfl))
  | listens hp' hr hn he =>
    exact departs none (by rw [hp']; rfl) ⟨hclosing, rfl, rfl⟩ (.writes hp' rfl rfl rfl rfl)
  | asks hp' hw =>
    rw [passOn_eq] at departs ⊢
    exact departs none (by rw [hp']; rfl) ⟨hclosing, rfl, rfl⟩ (.writes hp' rfl rfl rfl rfl)
  | isDenied hp' hw => exact absurd hw (hs.wait?_ne_none hp')
  | takes hp' ho => exact absurd ho (not_taken_of_closing hs hclosing hp')
  | parts hp' ho hd =>
    exact departs none (by rw [hp']; rfl) ⟨hclosing, rfl, rfl⟩
      (.writes hp' rfl (agenda_parting hclosing) rfl rfl)
  | idles hp' ho =>
    exact departs none (by rw [hp']; rfl) ⟨hclosing, rfl, rfl⟩ (.writes hp' rfl rfl rfl rfl)
  | @writes _ message hp' hl =>
    exact departs (some (.started (.message message))) (by simp [Position.wire?, hp', hl])
      ⟨hclosing, rfl, rfl⟩ (.writes hp' rfl rfl rfl (received_of_silent rfl rfl))
  | hasWritten hp' hl hh =>
    exact departs (some .completed) (by simp [Position.wire?, hp', hl, hh]) ⟨hclosing, rfl, rfl⟩
      (.writes hp' rfl rfl rfl rfl)
  | @announces _ text hp' hl =>
    exact departs (some (.started (.close text))) (by simp [Position.wire?, hp', hl])
      ⟨hclosing, rfl, rfl⟩ (.writes hp' rfl rfl rfl (received_of_silent rfl rfl))
  | lingers hp' hr =>
    exact departs none (by rw [hp']; rfl) ⟨hclosing, rfl, rfl⟩ (.writes hp' rfl rfl rfl rfl)
  | _ => simp_all

/-! ### How far a session has come -/

/-- Whatever had arrived until the peer had ended its side was handed to the handler, in order. -/
def HeardOut (s : Session) (ns : List Move) : Prop :=
  ∃ heard more, ns = heard ++ more ∧ (s.after heard).link.ended = true ∧
    (s.after heard).link.unread = [] ∧
    (s.after ns).received.map Except.ok
      = s.received.map Except.ok ++ s.link.unread ++ s.arrivals heard

/-- What the handler was given and what is unread make up what has arrived, as long as the receive
region reads; then the peer was heard out. -/
def Hears (s : Session) (ns : List Move) : Receiving → Prop
  | .reading => (s.after ns).received.map Except.ok ++ (s.after ns).link.unread
      = s.received.map Except.ok ++ s.link.unread ++ s.arrivals ns
  | .done => s.HeardOut ns
  | .failing _ => False

/-- The end was reported, after the peer was given the reason and heard out. -/
def HasParted (s : Session) (reason : CloseReason) (ns : List Move) : Prop :=
  ∃ before rest, ns = before ++ .tick :: rest ∧
    (s.after (before ++ [.tick])).journal = (s.after before).journal ++ [.closed .cancelled] ∧
    s.wires before = s.position.outstanding ++ farewell s.link.framed reason ∧
    s.wires ns = s.wires before ∧ s.HeardOut before

/-- How far a session has come that was stopped while it was active. -/
inductive Parting (s : Session) (ns : List Move) : Prop
  /-- The engine has not learned of the stop. -/
  | unaware (stage : (s.after ns).stage = .active) (doing : .engineStop ∈ (s.after ns).doing)
      (position : (s.after ns).position = s.position)
      (framed : (s.after ns).link.framed = s.link.framed) (wires : s.wires ns = [])
      (received : (s.after ns).received = s.received)
      (unread : (s.after ns).link.unread = s.link.unread ++ s.arrivals ns)
  | closing {turn rx tx} (stage : (s.after ns).stage = .closing)
      (position : (s.after ns).position = .active turn rx tx)
      (framed : (s.after ns).link.framed = s.link.framed)
      (wires : s.wires ns ++ tx.agenda s.link.framed (s.after ns).progress.closeReason
        = s.position.outstanding ++ farewell s.link.framed (s.after ns).progress.closeReason)
      (hears : s.Hears ns rx)
  | finishing (position : (s.after ns).position = .finishing true)
      (verdict : (s.after ns).progress.verdict = some .cancelled)
      (wires : s.wires ns
        = s.position.outstanding ++ farewell s.link.framed (s.after ns).progress.closeReason)
      (heard : s.HeardOut ns)
  | told (position : (s.after ns).position = .concluding .cancelled true ∨
        (s.after ns).position = .over ∧ (s.after ns).result = some .cancelled)
      (parted : s.HasParted (s.after ns).progress.closeReason ns)

section Steps

variable {ns : List Move} {m : Move}

theorem HeardOut.concat (h : s.HeardOut ns)
    (received : ((s.after ns).move m).received = (s.after ns).received) :
    s.HeardOut (ns ++ [m]) := by
  obtain ⟨heard, more, rfl, hended, hunread, hreceived⟩ := h
  refine ⟨heard, more ++ [m], by simp, hended, hunread, ?_⟩
  rw [after_concat, received, hreceived]

theorem Hears.stands {rx : Receiving} (h : s.Hears ns rx)
    (hst : Stands (s.after ns) ((s.after ns).move m) ((s.after ns).arrival? m)) :
    s.Hears (ns ++ [m]) rx := by
  cases rx with
  | reading =>
    show _ = _
    rw [after_concat, hst.received, hst.unread, arrivals_concat, ← List.append_assoc, h,
      ← List.append_assoc]
  | done => exact HeardOut.concat h hst.received
  | failing e => exact absurd h id

theorem HasParted.concat {reason : CloseReason} (h : s.HasParted reason ns)
    (hwire : (s.after ns).wire? m = none) : s.HasParted reason (ns ++ [m]) := by
  obtain ⟨before, rest, rfl, hjournal, hwires, hnothing, hheard⟩ := h
  refine ⟨before, rest ++ [m], by simp, hjournal, hwires, ?_, hheard⟩
  rw [wires_concat, hwire, hnothing]
  exact List.append_nil _

/-- Nothing goes wrong in a move: no transport failure is observed, nothing panics, and the future
is not let go. -/
structure IsSmooth (t : Session) (m : Move) : Prop where
  intact : ∀ phase text, t.condition? m ≠ some (.transport phase text)
  calm : t.raised? m = none
  kept : ¬ t.LetsGo m

/-- A peer that ends its side of a closing session does nothing wrong. -/
theorem fault?_ne_peerClosed (hclosing : s.stage = .closing) : s.fault? ≠ some .peerClosed := by
  intro hf
  obtain ⟨phase, text, heq⟩ | ⟨-, hactive⟩ := Told.fault_cases hf
  · cases heq
  · rw [hclosing] at hactive
    cases hactive

/-- A closing session of which nothing goes wrong observes no failure. -/
theorem fault?_of_smooth (hclosing : s.stage = .closing) (hd : s.doing = []) (hr : s.running = true)
    (smooth : s.IsSmooth .tick) : s.fault? = none := by
  cases hf : s.fault? with
  | none => rfl
  | some e =>
    have hcondition : s.condition? .tick = some e := by
      rw [condition?, hd, hr]
      exact observed?_of_fault hf
    cases e with
    | cancelled => exact absurd rfl (Told.ne_cancelled_of_fault hf)
    | transport phase text => exact absurd hcondition (smooth.intact phase text)
    | peerClosed => exact absurd hf (fault?_ne_peerClosed hclosing)

namespace Parting

/-- The engine learns of the stop, or it does not yet. -/
theorem of_unaware {turn : Turn} {tx : Transmitting}
    (hopen : s.position = .active turn .reading tx) (htx : tx.isOpen = true)
    (smooth : IsSmooth (s.after ns) m) (stage : (s.after ns).stage = .active)
    (doing : .engineStop ∈ (s.after ns).doing) (position : (s.after ns).position = s.position)
    (framed : (s.after ns).link.framed = s.link.framed) (wires : s.wires ns = [])
    (received : (s.after ns).received = s.received)
    (unread : (s.after ns).link.unread = s.link.unread ++ s.arrivals ns) :
    Parting s (ns ++ [m]) := by
  have hengine : (s.after ns).position ≠ .engine := by
    rw [position, hopen]
    nofun
  rcases Stands.of_move hengine smooth.calm smooth.kept with ⟨-, hd, -, -⟩ | ⟨hst, hwire⟩
  · rw [hd] at doing
    cases doing
  · have hwires : s.wires (ns ++ [m]) = [] := by
      rw [wires_concat, hwire, wires]
      rfl
    have hunread : ((s.after ns).move m).link.unread
        = s.link.unread ++ s.arrivals (ns ++ [m]) := by
      rw [hst.unread, unread, arrivals_concat, List.append_assoc]
    rcases hst.doing stage doing with ⟨hstage, hmem⟩ | hclosing
    · refine .unaware ?_ ?_ ?_ ?_ hwires ?_ ?_
      all_goals rw [after_concat]
      · exact hstage
      · exact hmem
      · exact hst.position.trans position
      · exact hst.framed.trans framed
      · exact hst.received.trans received
      · exact hunread
    · have houtstanding : s.position.outstanding = tx.outstanding := by rw [hopen]; rfl
      have hposition : (s.after (ns ++ [m])).position = .active turn .reading tx := by
        rw [after_concat, hst.position, position, hopen]
      refine .closing ?_ hposition ?_ ?_ ?_
      · rw [after_concat]
        exact hclosing
      · rw [after_concat]
        exact hst.framed.trans framed
      · rw [hwires, houtstanding]
        exact tx.agenda_of_isOpen htx _ _
      · show _ = _
        rw [after_concat, hst.received, received, hunread, List.append_assoc]

/-- A closing session says and hears what is next. -/
theorem of_departs {turn : Turn} {rx : Receiving} {tx : Transmitting} {w : Option Wire}
    (hs : Sound (s.after ns)) (stage : (s.after ns).stage = .closing)
    (position : (s.after ns).position = .active turn rx tx)
    (framed : (s.after ns).link.framed = s.link.framed)
    (wires : s.wires ns ++ tx.agenda s.link.framed (s.after ns).progress.closeReason
      = s.position.outstanding ++ farewell s.link.framed (s.after ns).progress.closeReason)
    (hears : s.Hears ns rx) (harrival : (s.after ns).arrival? m = none)
    (hwire : (s.after ns).wire? m = w) (hcontinues : Continues (s.after ns) ((s.after ns).move m))
    (hdeparts : Departs (s.after ns) ((s.after ns).move m) w) : Parting s (ns ++ [m]) := by
  have hstage : (s.after (ns ++ [m])).stage = .closing := by
    rw [after_concat]
    exact hcontinues.stage
  have hframed : (s.after (ns ++ [m])).link.framed = s.link.framed := by
    rw [after_concat]
    exact hcontinues.framed.trans framed
  have hreason : (s.after (ns ++ [m])).progress.closeReason
      = (s.after ns).progress.closeReason := by
    rw [after_concat]
    exact hcontinues.closeReason
  have hwires : s.wires (ns ++ [m]) = s.wires ns ++ w.toList := by rw [wires_concat, hwire]
  have harrivals : s.arrivals (ns ++ [m]) = s.arrivals ns := by
    rw [arrivals_concat, harrival]
    exact List.append_nil _
  cases hdeparts with
  | @hears tx' text hp position' unread received =>
    rw [position] at hp
    cases hp
    have hposition : (s.after (ns ++ [m])).position = .active .receive .reading tx := by
      rw [after_concat, position', position]
    refine .closing hstage hposition hframed ?_ ?_
    · rw [hwires, hreason]
      simpa using wires
    · have hbefore : (s.after ns).received.map Except.ok ++ (s.after ns).link.unread = _ := hears
      show _ = _
      rw [after_concat, received, harrivals, ← hbefore, unread]
      simp
  | @hearsOut tx' hp position' ended unread received =>
    rw [position] at hp
    cases hp
    have hposition : (s.after (ns ++ [m])).position = .active .receive .done tx := by
      rw [after_concat, position']
    refine .closing hstage hposition hframed ?_ ?_
    · rw [hwires, hreason]
      simpa using wires
    · have hbefore : (s.after ns).received.map Except.ok ++ (s.after ns).link.unread = _ := hears
      rw [unread, List.append_nil] at hbefore
      refine ⟨ns, [m], rfl, ended, unread, ?_⟩
      rw [after_concat, received, hbefore]
  | @writes turn₀ turn' rx' tx₀ tx' w' hp position' agenda unread received =>
    rw [position] at hp
    cases hp
    rw [framed] at agenda
    have hposition : (s.after (ns ++ [m])).position = .active turn' rx tx' := by
      rw [after_concat, position']
    refine .closing hstage hposition hframed ?_ ?_
    · rw [hwires, hreason, List.append_assoc, agenda]
      exact wires
    · cases rx with
      | reading =>
        have hbefore : (s.after ns).received.map Except.ok ++ (s.after ns).link.unread = _ := hears
        show _ = _
        rw [after_concat, received, unread, harrivals, hbefore]
      | done => exact HeardOut.concat hears received
      | failing e => exact absurd hears id
  | ends hp position' received =>
    rw [position] at hp
    cases hp
    refine .finishing ?_ ?_ ?_ (HeardOut.concat hears received)
    · rw [after_concat, position']
    · rw [after_concat]
      exact verdict_move (hs.cancelled_of_closing stage) m
    · rw [hwires, hreason]
      simpa [Transmitting.agenda] using wires

theorem of_closing {turn : Turn} {rx : Receiving} {tx : Transmitting} (hs : Sound (s.after ns))
    (reason : ((s.after ns).move m).progress.closeReason = (s.after ns).progress.closeReason)
    (smooth : IsSmooth (s.after ns) m) (stage : (s.after ns).stage = .closing)
    (position : (s.after ns).position = .active turn rx tx)
    (framed : (s.after ns).link.framed = s.link.framed)
    (wires : s.wires ns ++ tx.agenda s.link.framed (s.after ns).progress.closeReason
      = s.position.outstanding ++ farewell s.link.framed (s.after ns).progress.closeReason)
    (hears : s.Hears ns rx) : Parting s (ns ++ [m]) := by
  have hengine : (s.after ns).position ≠ .engine := by
    intro hp
    rw [position] at hp
    cases hp
  rcases Stands.of_move hengine smooth.calm smooth.kept
    with ⟨rfl, hd, hr, ha⟩ | ⟨hst, hwire⟩
  · have hfault := fault?_of_smooth stage hd hr smooth
    obtain ⟨hcontinues, hdeparts⟩ := departs_of_advances hs stage position hfault ha
    have harrival : (s.after ns).arrival? .tick = none := by
      rw [arrival?, performed?, hd]
      rfl
    have hwire : (s.after ns).wire? .tick = (s.after ns).position.wire? (s.after ns).link := by
      rw [wire?, hd, hr]
      rfl
    exact of_departs hs stage position framed wires hears harrival hwire hcontinues hdeparts
  · have hposition : (s.after (ns ++ [m])).position = .active turn rx tx := by
      rw [after_concat, hst.position, position]
    refine .closing ?_ hposition ?_ ?_ (hears.stands hst)
    · have hstage : (s.after ns).stage ≠ .active := by
        intro hactive
        rw [stage] at hactive
        cases hactive
      rw [after_concat, hst.stage hstage]
      exact stage
    · rw [after_concat]
      exact hst.framed.trans framed
    · rw [wires_concat, hwire, Option.toList_none, List.append_nil, after_concat, reason]
      exact wires

/-- A session that has said and heard everything reports its end. -/
theorem of_finishing
    (reason : ((s.after ns).move m).progress.closeReason = (s.after ns).progress.closeReason)
    (smooth : IsSmooth (s.after ns) m) (position : (s.after ns).position = .finishing true)
    (verdict : (s.after ns).progress.verdict = some .cancelled)
    (wires : s.wires ns
      = s.position.outstanding ++ farewell s.link.framed (s.after ns).progress.closeReason)
    (heard : s.HeardOut ns) : Parting s (ns ++ [m]) := by
  have hengine : (s.after ns).position ≠ .engine := by
    rw [position]
    nofun
  rcases Stands.of_move hengine smooth.calm smooth.kept with ⟨rfl, hd, hr, -⟩ | ⟨hst, hwire⟩
  · have htick : (s.after ns).move .tick = (s.after ns).conclude true := by
      rw [tick_of_running hd hr, advance, position]
    have hcancelled : (s.after ns).reason = .cancelled := by
      rw [Session.reason, verdict]
    have hwire : (s.after ns).wire? .tick = none := by
      rw [wire?, hd, hr, position]
      rfl
    refine .told (.inl ?_) ⟨ns, [], rfl, ?_, ?_, ?_, heard⟩
    · rw [after_concat, htick, conclude_eq, hcancelled]
    · rw [after_concat, htick, conclude_eq, hcancelled]
      exact List.reverse_cons
    · rw [after_concat, reason]
      exact wires
    · rw [wires_concat, hwire]
      exact List.append_nil _
  · refine .finishing ?_ ?_ ?_ (heard.concat hst.received)
    · rw [after_concat, hst.position, position]
    · rw [after_concat]
      exact verdict_move verdict m
    · rw [wires_concat, hwire, Option.toList_none, List.append_nil, after_concat, reason]
      exact wires

/-- What was told stays told, and the future resolves. -/
theorem of_told (hs : Sound (s.after ns))
    (reason : ((s.after ns).move m).progress.closeReason = (s.after ns).progress.closeReason)
    (smooth : IsSmooth (s.after ns) m)
    (position : (s.after ns).position = .concluding .cancelled true ∨
      (s.after ns).position = .over ∧ (s.after ns).result = some .cancelled)
    (parted : s.HasParted (s.after ns).progress.closeReason ns) : Parting s (ns ++ [m]) := by
  have hengine : (s.after ns).position ≠ .engine := by
    rcases position with hp | ⟨hp, -⟩ <;> rw [hp] <;> nofun
  rcases Stands.of_move hengine smooth.calm smooth.kept with ⟨rfl, hd, hr, -⟩ | ⟨hst, hwire⟩
  · rcases position with hp | ⟨hp, -⟩
    · have htick : (s.after ns).move .tick = (s.after ns).finish .cancelled true := by
        rw [tick_of_running hd hr, advance, hp]
      have hwire : (s.after ns).wire? .tick = none := by
        rw [wire?, hd, hr, hp]
        rfl
      refine .told (.inr ⟨?_, ?_⟩) ?_
      · rw [after_concat, htick, finish_eq]
      · rw [after_concat, htick, finish_eq]
        rfl
      · rw [after_concat, reason]
        exact parted.concat hwire
    · have hcan := hs.runs hr
      rw [hp] at hcan
      exact absurd hcan id
  · refine .told ?_ ?_
    · rw [after_concat, hst.position, hst.result]
      exact position
    · rw [after_concat, reason]
      exact parted.concat hwire

/-- **A stopped session to which nothing bad happens goes on parting.** -/
theorem move {turn : Turn} {tx : Transmitting} (h : Parting s ns)
    (hopen : s.position = .active turn .reading tx) (htx : tx.isOpen = true)
    (hs : Sound (s.after ns))
    (reason : (s.after ns).progress.verdict ≠ none →
      ((s.after ns).move m).progress.closeReason = (s.after ns).progress.closeReason)
    (smooth : IsSmooth (s.after ns) m) : Parting s (ns ++ [m]) := by
  cases h with
  | unaware stage doing position framed wires received unread =>
    exact of_unaware hopen htx smooth stage doing position framed wires received unread
  | closing stage position framed wires hears =>
    have hreason := reason (hs.coherent.ne_none_of_ending (.inl stage))
    exact of_closing hs hreason smooth stage position framed wires hears
  | finishing position verdict wires heard =>
    have hreason := reason (by rw [verdict]; nofun)
    exact of_finishing hreason smooth position verdict wires heard
  | told position parted =>
    have hclosed : (s.after ns).stage = .closed := by
      have hfits := hs.fits
      rcases position with hp | ⟨hp, -⟩ <;> rw [hp] at hfits <;> exact hfits
    have hreason := reason (hs.coherent.ne_none_of_ending (.inr hclosed))
    exact of_told hs hreason smooth position parted

end Parting

end Steps

/-! ### A whole run -/

/-- Nothing goes wrong in a run: no transport failure is observed, nothing panics, and the future is
not let go. -/
structure Undisturbed (s : Session) (ns : List Move) : Prop where
  intact : ∀ phase text, .transport phase text ∉ s.conditions ns
  calm : s.raised ns = []
  kept : ¬ s.WasLetGo ns

theorem Undisturbed.of_concat {ns : List Move} {m : Move} (h : s.Undisturbed (ns ++ [m])) :
    s.Undisturbed ns ∧ IsSmooth (s.after ns) m := by
  have hcalm := h.calm
  have hkept := h.kept
  rw [raised, seen_concat, List.append_eq_nil_iff] at hcalm
  rw [wasLetGo_concat, not_or] at hkept
  refine ⟨⟨?_, hcalm.1, hkept.1⟩, ?_, ?_, hkept.2⟩
  · intro phase text hmem
    refine h.intact phase text ?_
    rw [conditions_append]
    exact List.mem_append_left _ hmem
  · intro phase text hcondition
    refine h.intact phase text ?_
    rw [conditions, seen_concat]
    exact List.mem_append_right _ (Option.mem_toList.mpr hcondition)
  · exact Option.toList_eq_nil_iff.mp hcalm.2

/-- A run without a drop and without a handover does not let go of the future. -/
theorem not_wasLetGo {ns : List Move} (undropped : .drop ∉ ns) (unspawned : .spawn ∉ ns) :
    ¬ s.WasLetGo ns := by
  induction ns generalizing s with
  | nil => exact id
  | cons n ns ih =>
    rw [List.mem_cons, not_or] at undropped unspawned
    rw [WasLetGo, not_or]
    refine ⟨?_, ih undropped.2 unspawned.2⟩
    cases n with
    | drop => exact absurd rfl undropped.1
    | spawn => exact absurd rfl unspawned.1
    | _ => exact id

/-! #### The future resolves at its end -/

theorem result_perform (s : Session) (d : Deed) : (s.perform d).result = s.result := by
  cases d with
  | act a =>
    obtain ⟨message, -, ha⟩ | ⟨message, -, ha⟩ | ⟨-, ha⟩ := act_cases s a
    · rw [perform, ha, send_eq]
      split <;> rfl
    · rw [perform, ha]
      cases hr : s.running with
      | false => rw [tearDown_of_not_running hr]
      | true => exact (tearDown_of_running hr (.raised message)).result
    · exact ha.result
  | engineStop => rw [perform, onStop_eq]
  | heard id => rfl

theorem result_advances (hs : Sound s) (ha : Advances s t) :
    t.result = s.result ∨ t.position = .over := by
  cases ha with
  | shuts hg => rw [wireClosed_eq]; exact .inl rfl
  | fails hf link => rw [fail_eq]; exact .inl rfl
  | asks hp hw => rw [passOn_eq]; exact .inl rfl
  | isDenied hp hw => exact absurd hw (hs.wait?_ne_none hp)
  | concludes hp => rw [conclude_eq, settleProgress_eq]; exact .inl rfl
  | finishes hp => rw [finish_eq]; exact .inr rfl
  | _ => exact .inl rfl

/-- A future that has resolved is gone, whatever panicked. -/
theorem over_of_result {o : Origin} {ms : List Move} (h : (o.session.after ms).result ≠ none) :
    (o.session.after ms).position = .over := by
  induction ms using List.reverseRecOn with
  | nil => exact absurd rfl h
  | append_singleton ms m ih =>
    rw [after_concat] at h ⊢
    have hm := moves (o.session.after ms) m
    have hs := sound_after o ms
    generalize (o.session.after ms).move m = t at h hm ⊢
    generalize o.session.after ms = s at *
    have performed : ∀ {u : Session} (d : Deed), u.position = s.position →
      u.result = s.result →
        (u.perform d).result ≠ none → (u.perform d).position = .over := by
      intro u d hp hres hne
      rw [result_perform, hres] at hne
      obtain ⟨hsame, -⟩ | ⟨hover, -⟩ := position_perform u d
      · rw [hsame, hp]
        exact ih hne
      · exact hover
    have gone : s.position.CanRun → s.result ≠ none → False := by
      intro hcan hne
      rw [ih hne] at hcan
      exact hcan
    cases hm with
    | stays => exact ih h
    | acts a => exact performed (.act a) rfl rfl h
    | does hd => exact performed _ rfl rfl h
    | advances hd hr ha =>
      rcases result_advances hs ha with hsame | hover
      · rw [hsame] at h
        exact (gone (hs.runs hr) h).elim
      · exact hover
    | hands hp hq =>
      have hover := ih h
      rw [hp] at hover
      cases hover
    | refuses hp ha =>
      have hover := ih h
      rw [hp] at hover
      cases hover
    | resumes hr hp hq => exact (gone hp h).elim
    | misses hr hq hp => exact ih h
    | drops hr hp =>
      rw [releaseOperations_eq] at h
      exact (gone hp h).elim
    | disowns hp =>
      rw [unhookEngine_eq] at h
      have hover := ih h
      rw [hp] at hover
      cases hover
    | shuts => exact ih h

/-- A future that was let go goes without a result. -/
theorem isLost_move {m : Move} (hs : Sound s) (h : s.IsLost) (smooth : IsSmooth s m) :
    (s.move m).IsLost := by
  obtain ⟨hlose, hresult⟩ := h
  have hengine : s.position ≠ .engine := by
    intro hp
    rw [hp] at hlose
    cases hlose
  rcases Stands.of_move hengine smooth.calm smooth.kept with ⟨rfl, hd, hr, -⟩ | ⟨hst, -⟩
  · rw [tick_of_running hd hr]
    cases hp : s.position with
    | finishing resolves =>
      have hadvance : s.advance = s.conclude resolves := by rw [advance, hp]
      rw [hp] at hlose
      rw [hadvance, conclude_eq, settleProgress_eq]
      exact ⟨hlose, hresult⟩
    | concluding reason resolves =>
      rw [hp] at hlose
      have hresolves : resolves = false := by simpa [Position.mayLose] using hlose
      have hadvance : s.advance = s.finish reason false := by rw [advance, hp, hresolves]
      rw [hadvance, finish_eq, unhookEngine_eq]
      exact ⟨rfl, hresult⟩
    | _ =>
      have hcan := hs.runs hr
      rw [hp] at hlose hcan
      first | exact absurd hlose Bool.false_ne_true | exact absurd hcan id
  · rw [IsLost, hst.position, hst.result]
    exact ⟨hlose, hresult⟩

/-! #### The stop, and what comes of it -/

/-- An active session is at work, or it was let go and has not noticed. -/
theorem open_or_lost {o : Origin} {ms : List Move} (h : (o.session.after ms).stage = .active) :
    (∃ turn tx, (o.session.after ms).position = .active turn .reading tx ∧ tx.isOpen = true) ∨
      (o.session.after ms).IsLost := by
  have hs := sound_after o ms
  have hover : (o.session.after ms).result ≠ none → (o.session.after ms).position = .over :=
    over_of_result
  generalize o.session.after ms = s at *
  have hstage : s.progress.stage = .active := h
  have hfits := hs.fits
  have hverdict := hs.coherent.none_of_active hstage
  cases hp : s.position with
  | active turn rx tx =>
    rw [hp] at hfits
    obtain ⟨rfl, htx⟩ := hfits.2.1 hverdict
    exact .inl ⟨turn, tx, rfl, htx⟩
  | finishing resolves =>
    rw [hp] at hfits
    have hresolves : resolves = false := by
      by_contra hne
      exact hfits (by simpa using hne) hverdict
    refine .inr ⟨?_, ?_⟩
    · rw [hp, hresolves]
      rfl
    · by_contra hne
      have hgone := hover hne
      rw [hp] at hgone
      cases hgone
  | _ => simp_all [Position.Fits]

section Runs

variable {o : Origin} {ms ns : List Move} {m : Move} {call : Option CloseReason}

/-- A session that is at work when it is stopped goes on parting. -/
theorem parting_of_run {turn : Turn} {tx : Transmitting} (h : FirstStop o ms m call)
    (hopen : (o.session.after (ms ++ [m])).position = .active turn .reading tx)
    (htx : tx.isOpen = true) (undisturbed : (o.session.after (ms ++ [m])).Undisturbed ns) :
    Parting (o.session.after (ms ++ [m])) ns := by
  induction ns using List.reverseRecOn with
  | nil => exact .unaware h.stage h.engineStop_mem rfl rfl rfl rfl (List.append_nil _).symm
  | append_singleton ns n ih =>
    obtain ⟨hbefore, smooth⟩ := undisturbed.of_concat
    have hs : Sound ((o.session.after (ms ++ [m])).after ns) := by
      rw [← after_append]
      exact sound_after o _
    refine (ih hbefore).move hopen htx hs ?_ smooth
    intro hverdict
    rw [← after_append] at hverdict ⊢
    rw [← after_concat]
    exact closeReason_of_verdict hverdict [n]

/-- A session that was let go stays so. -/
theorem isLost_of_run (h : (o.session.after ms).IsLost)
    (undisturbed : (o.session.after ms).Undisturbed ns) :
    ((o.session.after ms).after ns).IsLost := by
  induction ns using List.reverseRecOn with
  | nil => exact h
  | append_singleton ns n ih =>
    obtain ⟨hbefore, smooth⟩ := undisturbed.of_concat
    rw [after_concat]
    refine isLost_move ?_ (ih hbefore) smooth
    rw [← after_append]
    exact sound_after o _

/-- **A session that resolves has parted**, if it was stopped while it was active and nothing went
wrong since. -/
theorem hasParted_of_run {e : Ending} (h : FirstStop o ms m call)
    (undisturbed : (o.session.after (ms ++ [m])).Undisturbed ns)
    (resolved : (o.session.after (ms ++ m :: ns)).result = some e) :
    e = .cancelled ∧ (o.session.after (ms ++ [m])).HasParted (o.reasonGiven ms m call ns) ns := by
  have hsplit : o.session.after (ms ++ m :: ns) = (o.session.after (ms ++ [m])).after ns := by
    rw [← after_append]
    simp
  have hover : ((o.session.after (ms ++ [m])).after ns).position = .over := by
    rw [← hsplit]
    exact over_of_result (by rw [resolved]; nofun)
  have hreason : ((o.session.after (ms ++ [m])).after ns).progress.closeReason
      = o.reasonGiven ms m call ns := by
    rw [← after_append, closeReason_after, h.closeReason]
    rfl
  rw [hsplit] at resolved
  rcases open_or_lost h.stage with ⟨turn, tx, hopen, htx⟩ | hlost
  · have hparting := parting_of_run h hopen htx undisturbed
    cases hparting with
    | unaware stage doing position framed wires received unread =>
      rw [position, hopen] at hover
      cases hover
    | closing stage position framed wires hears =>
      rw [position] at hover
      cases hover
    | finishing position verdict wires heard =>
      rw [position] at hover
      cases hover
    | told position parted =>
      rw [hreason] at parted
      rcases position with hp | ⟨-, hcancelled⟩
      · rw [hp] at hover
        cases hover
      · rw [resolved] at hcancelled
        exact ⟨Option.some.inj hcancelled, parted⟩
  · rw [(isLost_of_run hlost undisturbed).2] at resolved
    cases resolved

end Runs

/-- **A session that is stopped while it is active says farewell, and no other does.**

If nothing goes wrong after the first stop and the session resolves, then before the end is reported
the write in flight completes, the close frame is written once, if there is one, the sink is closed,
and the peer is heard out; the result is that the session was cancelled.  The journal has at the
sink what was outstanding, and the farewell.

In every run a close frame is written only if the engine has learned of a first stop that was made
while the session was active, and nothing else had ended the session; and it says the reason given.
That is the reason of the first stop, unless a callback on the stop token, or somebody else, calls
the session while that stop is under way. -/
theorem farewell_of_run (o : Origin) :
    (∀ ms m call ns e, FirstStop o ms m call →
      (o.session.after (ms ++ [m])).Undisturbed ns →
        (o.session.after (ms ++ m :: ns)).result = some e →
          e = .cancelled ∧
            (∀ text, .close text ∉ o.session.handed (ms ++ [m])) ∧
            (o.session.after (ms ++ [m])).HasParted (o.reasonGiven ms m call ns) ns ∧
            (o.session.after (ms ++ m :: ns)).atSink = (o.session.after (ms ++ [m])).atSink ++
              ((o.session.after (ms ++ [m])).position.outstanding ++
                farewell (o.session.after (ms ++ [m])).link.framed
                  (o.reasonGiven ms m call ns)).filterMap Wire.event?) ∧
      (∀ ms text, .close text ∈ o.session.handed ms → ∃ before m call since rest,
        ms = before ++ m :: (since ++ .tick :: rest) ∧ Learns o before m call since ∧
          o.session.conditions (before ++ m :: since) = [] ∧
          (o.session.conditions ms).head? = some .cancelled ∧
          text = (o.reasonGiven before m call since).announcement) ∧
      ∀ ms m call since, FirstStop o ms m call → IsAlone o ms m since →
        o.reasonGiven ms m call since = call.getD o.settings.closeReason := by
  refine ⟨?_, ?_, ?_⟩
  · intro ms m call ns e h undisturbed resolved
    obtain ⟨hcancelled, hparted⟩ := hasParted_of_run h undisturbed resolved
    refine ⟨hcancelled, ?_, hparted, ?_⟩
    · intro text hmem
      obtain ⟨before, n, call', since, rest, hsplit, hlearns, -⟩ := announced_of_handed hmem
      have hverdict := (sound_after o (ms ++ [m])).coherent.none_of_active h.stage
      rw [hsplit, hlearns.verdict rest] at hverdict
      cases hverdict
    · obtain ⟨before, rest, -, -, hwires, hnothing, -⟩ := hparted
      have hsplit : o.session.after (ms ++ m :: ns) = (o.session.after (ms ++ [m])).after ns := by
        rw [← after_append]
        simp
      rw [hsplit, atSink_after (sound_after o (ms ++ [m])), hnothing, hwires]
  · intro ms text hmem
    obtain ⟨before, m, call, since, rest, rfl, hlearns, htext⟩ := announced_of_handed hmem
    obtain ⟨hnone, hhead⟩ := hlearns.conditions rest
    exact ⟨before, m, call, since, rest, rfl, hlearns, hnone, hhead, htext⟩
  · intro ms m call since h alone
    exact reasonGiven_of_alone h alone

/-- The session with the stuck write runs until it waits for its write. -/
def midWrite : List Move :=
  .serve :: .poll :: .replicate 12 .tick

/-- The engine learns of a stop, the peer says a word, and writes complete again. -/
def writeReleased : List Move :=
  [.tick, .act (.link (.peer "so long")), .act (.link .release), .turn] ++ .replicate 20 .tick ++
    .turn :: .replicate 10 .tick

/-- The session is stopped with a reason of its own, writes what it was writing, and says
farewell. -/
theorem farewell_of_stuckWrite :
    (Origin.stuckWrite.session.after (midWrite ++ [.act (.stopWith (.normal "bye"))])).HasParted
        (.normal "bye") writeReleased ∧
      (Origin.stuckWrite.session.after
        (midWrite ++ .act (.stopWith (.normal "bye")) :: writeReleased)).atSink
          = [.write "word", .write "close 1000 bye", .wireClosed] ∧
      (Origin.stuckWrite.session.conditions
        (midWrite ++ .act (.stopWith (.normal "bye")) :: writeReleased)).head?
          = some .cancelled := by
  have hstop : FirstStop Origin.stuckWrite midWrite (.act (.stopWith (.normal "bye")))
      (some (.normal "bye")) :=
    ⟨by decide +kernel, by decide +kernel, by decide +kernel⟩
  have hconditions : (Origin.stuckWrite.session.after
      (midWrite ++ [.act (.stopWith (.normal "bye"))])).conditions writeReleased
          = [.cancelled] := by
    decide +kernel
  have hundisturbed : (Origin.stuckWrite.session.after
      (midWrite ++ [.act (.stopWith (.normal "bye"))])).Undisturbed writeReleased := by
    refine ⟨?_, by decide +kernel, ?_⟩
    · intro phase text
      rw [hconditions]
      simp
    · exact not_wasLetGo (by simp [writeReleased]) (by simp [writeReleased])
  have hresult : (Origin.stuckWrite.session.after
      (midWrite ++ .act (.stopWith (.normal "bye")) :: writeReleased)).result
        = some .cancelled := by decide +kernel
  have hhanded : .close "close 1000 bye" ∈ Origin.stuckWrite.session.handed
      (midWrite ++ .act (.stopWith (.normal "bye")) :: writeReleased) := by decide +kernel
  have hslots : (Origin.stuckWrite.session.after midWrite).stopSignal.slots = [(0, .engine)] := rfl
  have halone : IsAlone Origin.stuckWrite midWrite (.act (.stopWith (.normal "bye")))
      writeReleased := by
    refine ⟨?_, ?_⟩
    · intro n id acts hmem
      rw [hslots] at hmem
      cases List.mem_singleton.mp hmem
    · intro before a rest hsplit
      cases before with
      | nil => cases hsplit
      | cons n before =>
        obtain rfl : .tick = n := (List.cons.inj hsplit).1
        have hlearned : ((Origin.stuckWrite.session.after
            (midWrite ++ [.act (.stopWith (.normal "bye"))])).move .tick).progress.verdict
              = some .cancelled := by decide +kernel
        refine .inr ?_
        rw [after_cons, verdict_after hlearned before]
        nofun
  obtain ⟨hforward, hbackward, hgiven⟩ := farewell_of_run Origin.stuckWrite
  have hreason := hgiven _ _ _ _ hstop halone
  obtain ⟨-, -, hparted, hsink⟩ := hforward _ _ _ _ _ hstop hundisturbed hresult
  obtain ⟨-, -, -, -, -, -, -, -, hhead, -⟩ := hbackward _ _ hhanded
  have hbefore : (Origin.stuckWrite.session.after
      (midWrite ++ [.act (.stopWith (.normal "bye"))])).atSink
        = [.write "word"] := by decide +kernel
  have houtstanding : (Origin.stuckWrite.session.after
      (midWrite ++ [.act (.stopWith (.normal "bye"))])).position.outstanding = [.completed] := by
    decide +kernel
  have hframed : (Origin.stuckWrite.session.after
      (midWrite ++ [.act (.stopWith (.normal "bye"))])).link.framed = true := by decide +kernel
  rw [hreason] at hparted hsink
  rw [hbefore, houtstanding, hframed] at hsink
  exact ⟨hparted, hsink, hhead⟩

/-- A session becomes active, with a callback on its stop token that stops it in its own words. -/
def outspoken : List Move :=
  .act (.listen 1 [.stopWith (.normal "mine")]) :: .serve :: .poll :: .replicate 7 .tick

/-- The callback runs, the engine learns of the stop, and the session ends. -/
def misquoted : List Move :=
  .replicate 3 .tick ++ .poll :: .replicate 8 .tick ++ .poll :: .replicate 8 .tick

/-- The session is stopped with the configured reason, the callback comes before the engine, and the
peer is told the reason of the callback. -/
theorem close_of_outspoken :
    FirstStop .backwards outspoken (.act .stop) none ∧
      Origin.backwards.settings.closeReason.announcement = "close 1001 shutting down" ∧
      Origin.backwards.session.handed (outspoken ++ .act .stop :: misquoted)
        = [.close "close 1000 mine"] ∧
      (Origin.backwards.session.after (outspoken ++ .act .stop :: misquoted)).result
        = some .cancelled :=
  ⟨⟨by decide +kernel, by decide +kernel, by decide +kernel⟩, by decide +kernel,
    by decide +kernel, by decide +kernel⟩

end Dialogue.Session
