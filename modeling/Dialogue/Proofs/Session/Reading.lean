/-
Every frame of the peer is heard, in order and once.

What the receive region takes from the connection is the history `reads`.  Whatever arrives is
either in it or has not been read, in the order of arrival, and each frame that is read is handed to
the handler in that very step: `Absorbs`.  A read error is read as well, but then the session is
closed and nothing more is read.

A session that became active reads on until something silences it.  `Silences` lists what can: the
stream ends and everything was heard, a read fails, a write or the closing fails, the future is let
go, or a callback panics.  A stop is not in the list.
-/
import Dialogue.Proofs.Session.Dropping
import Dialogue.Proofs.Session.Farewell
import Dialogue.Proofs.Session.Verdict

namespace Dialogue.Session

variable {s t : Session}

/-! ### What is read -/

/-- What the receive region reads when the future goes on. -/
def nextFrame? (s : Session) : Option (Except String String) :=
  match s.position with
  | .active .receive .reading _ =>
    if s.progress.receive = .pulled then none else s.link.next?.map (·.1)
  | _ => none

/-- What is read in a move. -/
def read? (s : Session) : Move → Option (Except String String)
  | .tick => if s.doing.isEmpty && s.running then s.nextFrame? else none
  | _ => none

/-- The frames that are read, and the read error if there is one, in order. -/
def reads (s : Session) (ms : List Move) : List (Except String String) :=
  seen move read? s ms

theorem reads_concat (s : Session) (ms : List Move) (m : Move) :
    s.reads (ms ++ [m]) = s.reads ms ++ ((s.after ms).read? m).toList :=
  seen_concat move read? s ms m

theorem reads_append (s : Session) (ms ns : List Move) :
    s.reads (ms ++ ns) = s.reads ms ++ (s.after ms).reads ns :=
  seen_append move read? s ms ns

/-! ### One step -/

/-- Reading that was not interrupted can be. -/
theorem Sound.ready_of_reading (hs : Sound s) {turn : Turn} {rx : Receiving} {tx : Transmitting}
    (hp : s.position = .active turn rx tx) (h : s.progress.receive ≠ .pulled) :
    s.progress.receive.isReady = true := by
  have hfits := hs.fits
  rw [hp] at hfits
  cases hi : s.progress.receive with
  | ready listening => rfl
  | absent => exact absurd hi hfits.1.2.2
  | pulled => exact absurd hi h

/-- A step in which something may arrive and something may be read. -/
structure Absorbs (s t : Session) (arrival read : Option (Except String String)) : Prop where
  /-- What has arrived is read in order, or is still to be read. -/
  unread : s.link.unread ++ arrival.toList = read.toList ++ t.link.unread
  /-- A frame that is read is given to the handler. -/
  received : t.received = s.received ++ (read.bind Except.toOption).toList
  /-- Frames are read while the reading can be interrupted. -/
  ready : read ≠ none → s.progress.receive.isReady = true
  handed : ∀ text, read = some (.ok text) →
    t.log = .message text :: s.log ∧ t.stage = s.stage ∧ t.running = true
  failed : ∀ text, read = some (.error text) → t.stage = .closed

namespace Absorbs

theorem nothing {arrival : Option (Except String String)}
    (unread : t.link.unread = s.link.unread ++ arrival.toList)
    (received : t.received = s.received) : Absorbs s t arrival none := by
  refine ⟨?_, ?_, nofun, nofun, nofun⟩
  · rw [unread]
    rfl
  · rw [received]
    exact (List.append_nil _).symm

theorem of_link (link : t.link.unread = s.link.unread) (received : t.received = s.received) :
    Absorbs s t none none :=
  nothing (by rw [link]; exact (List.append_nil _).symm) received

theorem link_tearDown (s : Session) (cause : Panic) : (s.tearDown cause).link = s.link := by
  unfold tearDown
  dsimp only
  split
  · split
    · rw [vanish, unhookEngine_eq]
    · rw [vanish, unhookEngine_eq, releaseOperations_eq, settleProgress_eq]
      rfl
  · rfl

theorem received_tearDown (s : Session) (cause : Panic) :
    (s.tearDown cause).received = s.received := by
  cases hr : s.running with
  | false =>
    rw [tearDown_of_not_running hr]
    rfl
  | true =>
    obtain hl | hl := (tearDown_of_running hr cause).log
    · exact filterMap_journal_of_log Event.message? hl
    · exact received_of_silent hl rfl

theorem of_act (s : Session) (a : Act) : Absorbs s (s.act a) a.arrival? none := by
  by_cases hquiet : a.raised? = none
  · have hstands := Stands.of_act s hquiet
    exact nothing hstands.unread hstands.received
  · obtain ⟨message, rfl⟩ := Act.eq_panic_of_raised hquiet
    exact of_link (by rw [act, link_tearDown]) (received_tearDown s _)

theorem of_doing (s : Session) (deeds : List Deed) (d : Deed) :
    Absorbs s (perform { s with doing := deeds } d) (d.act?.bind Act.arrival?) none := by
  cases d with
  | act a =>
    have hact := of_act { s with doing := deeds } a
    exact ⟨hact.unread, hact.received, nofun, nofun, nofun⟩
  | engineStop =>
    refine of_link ?_ ?_ <;> rw [perform, onStop_eq]
    rfl
  | heard id => exact of_link rfl rfl

theorem received_fail (s : Session) (e : Ending) (recording after : Position) :
    (s.fail e recording after).received = s.received := by
  by_cases hv : s.progress.verdict = none
  · refine received_of_silent (e := .error e) ?_ rfl
    rw [fail_eq]
    exact if_pos hv
  · refine filterMap_journal_of_log Event.message? ?_
    rw [fail_eq]
    exact if_neg hv

/-- A fault is met, and only a read error is read with it. -/
theorem of_fault {e : Ending} {link : Link} {x : Transmission} (hs : Sound s)
    (hf : s.fault? = some e) (hl : link = s.linkAfterFault) :
    Absorbs s ({ s with link := link, progress := { s.progress with transmission := x } }.fail e
      (s.position.reporting e) s.position.dismissed) none s.nextFrame? := by
  generalize ht : Session.fail _ e _ _ = t
  have hreceived : t.received = s.received := by rw [← ht, received_fail]; rfl
  have hlink : t.link = s.linkAfterFault := by rw [← ht, fail_eq, hl]
  have hstage : t.stage = .closed := by rw [← ht, stage, fail_eq]
  have quiet : s.nextFrame? = none → s.linkAfterFault.unread = s.link.unread →
      Absorbs s t none s.nextFrame? := by
    intro hnone hunread
    rw [hnone]
    exact of_link (by rw [hlink, hunread]) hreceived
  rcases Sound.position_of_fault hf with hp | ⟨tx, hp⟩ | ⟨rx, tx, hp, -⟩
  · refine quiet (by rw [nextFrame?, hp]) ?_
    rw [linkAfterFault, hp]
    rfl
  · rw [fault?, hp] at hf
    change s.receiveFault? = some e at hf
    rw [receiveFault?] at hf
    split at hf
    · cases hf
    · next hready =>
      split at hf
      · cases hf
      · next text rest hn =>
        have hnext : s.nextFrame? = some (.error text) := by
          simp [nextFrame?, hp, hready, hn]
        have hrest : s.linkAfterFault = rest := by simp [linkAfterFault, hp, hn]
        rw [hnext]
        refine ⟨?_, ?_, fun _ => hs.ready_of_reading hp hready, ?_, fun _ _ => hstage⟩
        · rw [hlink, hrest, Link.unread_of_next? hn]
          exact List.append_nil _
        · rw [hreceived]
          exact (List.append_nil _).symm
        · rintro message ⟨⟩
      · next hn =>
        refine quiet ?_ ?_
        · simp [nextFrame?, hp, hn]
        · simp [linkAfterFault, hp, hn]
  · refine quiet (by rw [nextFrame?, hp]) ?_
    rw [linkAfterFault, hp]

theorem nextFrame?_of_goes {p : Position} (h : Goes s p) : s.nextFrame? = none := by
  cases h <;> simp_all [nextFrame?]

theorem nextFrame?_of_sleeps {p : Position} (h : Sleeps s p) : s.nextFrame? = none := by
  cases h <;> simp_all [nextFrame?]

theorem nextFrame?_of_shuts {p : Position} (h : Shuts s p) : s.nextFrame? = none := by
  cases h <;> simp_all [nextFrame?]

theorem of_advances (hs : Sound s) (hr : s.running = true) (ha : Advances s t) :
    Absorbs s t none s.nextFrame? := by
  have quiet : s.nextFrame? = none → t.link.unread = s.link.unread → t.received = s.received →
      Absorbs s t none s.nextFrame? := by
    intro hnone hunread hreceived
    rw [hnone]
    exact of_link hunread hreceived
  cases ha with
  | rests hp =>
    have hcan := hs.runs hr
    rcases hp with hp | hp | hp <;> rw [hp] at hcan <;> exact absurd hcan id
  | goes hg => exact quiet (nextFrame?_of_goes hg) rfl rfl
  | sleeps hg => exact quiet (nextFrame?_of_sleeps hg) rfl rfl
  | shuts hg =>
    rw [wireClosed_eq] at quiet ⊢
    exact quiet (nextFrame?_of_shuts hg) rfl (received_of_silent rfl rfl)
  | prepares hp hv => exact quiet (by rw [nextFrame?, hp]) rfl rfl
  | begins hp hh => exact quiet (by rw [nextFrame?, hp]) rfl (received_of_silent rfl rfl)
  | abandons hp hh =>
    refine quiet ?_ rfl (received_of_silent rfl rfl)
    rcases hp with hp | hp | ⟨hp, -⟩ <;> rw [nextFrame?, hp]
  | hopes hp ho hh => exact quiet (by rw [nextFrame?, hp]) rfl rfl
  | opens hp ho => exact quiet (by rw [nextFrame?, hp]) rfl rfl
  | fails hf link hl => exact of_fault hs hf hl
  | records hp =>
    refine quiet ?_ rfl rfl
    unfold Position.reported? at hp
    split at hp <;> simp_all [nextFrame?]
  | turnsAway hp hv => exact quiet (by rw [nextFrame?, hp]) rfl rfl
  | connects hp hv => exact quiet (by rw [nextFrame?, hp]) rfl (received_of_silent rfl rfl)
  | @hands tx message link hp hready hn =>
    have hnext : s.nextFrame? = some (.ok message) := by simp [nextFrame?, hp, hready, hn]
    rw [hnext]
    refine ⟨?_, received_of_cons (e := .message message) rfl,
      fun _ => hs.ready_of_reading hp hready, ?_, nofun⟩
    · rw [Link.unread_of_next? hn]
      exact List.append_nil _
    · rintro text ⟨⟩
      exact ⟨rfl, rfl, hr⟩
  | listens hp hready hn he => exact quiet (by simp [nextFrame?, hp, hn]) rfl rfl
  | asks hp hw =>
    rw [passOn_eq] at quiet ⊢
    exact quiet (by rw [nextFrame?, hp]) rfl rfl
  | isDenied hp hw => exact absurd hw (hs.wait?_ne_none hp)
  | takes hp ho => exact quiet (by rw [nextFrame?, hp]) rfl rfl
  | parts hp ho hd => exact quiet (by rw [nextFrame?, hp]) rfl rfl
  | idles hp ho => exact quiet (by rw [nextFrame?, hp]) rfl rfl
  | writes hp hf => exact quiet (by rw [nextFrame?, hp]) rfl (received_of_silent rfl rfl)
  | hasWritten hp hf hh => exact quiet (by rw [nextFrame?, hp]) rfl rfl
  | announces hp hf => exact quiet (by rw [nextFrame?, hp]) rfl (received_of_silent rfl rfl)
  | lingers hp hrx => exact quiet (by rw [nextFrame?, hp]) rfl rfl
  | @concludes resolves hp =>
    have hlog : (s.conclude resolves).log = .closed s.reason :: s.log := by rw [conclude_eq]
    refine quiet (by rw [nextFrame?, hp]) ?_ (received_of_silent hlog rfl)
    rw [conclude_eq, settleProgress_eq]
  | finishes hp =>
    rw [finish_eq, unhookEngine_eq] at quiet ⊢
    exact quiet (by rw [nextFrame?, hp]) rfl rfl

/-- **Whatever a move is, what arrives in it is behind what is read in it.** -/
theorem of_move (hs : Sound s) (m : Move) : Absorbs s (s.move m) (s.arrival? m) (s.read? m) := by
  by_cases htick : m = .tick
  · subst htick
    cases hd : s.doing with
    | cons d rest =>
      have harrival : s.arrival? .tick = d.act?.bind Act.arrival? := by
        rw [arrival?, performed?, hd]
        rfl
      rw [tick_of_cons hd, harrival, read?, hd]
      exact of_doing s rest d
    | nil =>
      have harrival : s.arrival? .tick = none := by
        rw [arrival?, performed?, hd]
        rfl
      rw [harrival, read?, hd]
      cases hr : s.running with
      | true =>
        rw [tick_of_running hd hr]
        exact of_advances hs hr (Session.advances s)
      | false =>
        rw [tick_of_quiet hd hr]
        exact of_link rfl rfl
  · have hread : s.read? m = none := by
      cases m with
      | tick => exact absurd rfl htick
      | _ => rfl
    rw [hread]
    by_cases hact : ∃ a, m = .act a
    · obtain ⟨a, rfl⟩ := hact
      exact of_act s a
    · rw [arrival?_eq_none htick hact]
      have hm := moves s m
      generalize s.move m = t at hm
      cases hm with
      | acts a => exact absurd ⟨a, rfl⟩ hact
      | does hd => exact absurd rfl htick
      | advances hd hr ha => exact absurd rfl htick
      | drops hr hp =>
        rw [releaseOperations_eq]
        refine of_link rfl ?_
        show Session.received { s with log := s.lastWords ++ s.log } = _
        unfold lastWords
        split <;> first | rfl | exact received_of_silent rfl rfl
      | disowns hp =>
        rw [unhookEngine_eq]
        exact of_link rfl rfl
      | _ => exact of_link rfl rfl

end Absorbs

/-! ### The frames of a run -/

/-- What has arrived is read in order, or is still to be read. -/
theorem unread_after (hs : Sound s) (ns : List Move) :
    s.link.unread ++ s.arrivals ns = s.reads ns ++ (s.after ns).link.unread := by
  induction ns generalizing s with
  | nil => exact List.append_nil _
  | cons m ns ih =>
    have hmove := Absorbs.of_move hs m
    rw [arrivals, seen, reads, seen, ← arrivals, ← reads, ← List.append_assoc, hmove.unread,
      List.append_assoc, ih (hs.move m), List.append_assoc, after_cons]

theorem not_closed_of_ready (hs : Sound s) (h : s.progress.receive.isReady = true) :
    s.stage ≠ .closed := by
  intro hclosed
  rcases hs.coherent.isReady_iff.mp h with hactive | hclosing
  · rw [stage, hactive] at hclosed
    cases hclosed
  · rw [stage, hclosing] at hclosed
    cases hclosed

/-- The messages given to the handler are the frames that were read; after them at most one error
was read, and then the session is closed. -/
theorem received_after (o : Origin) (ms : List Move) :
    o.session.reads ms = (o.session.after ms).received.map .ok ∨
      ∃ text, o.session.reads ms = (o.session.after ms).received.map .ok ++ [.error text] ∧
        (o.session.after ms).stage = .closed := by
  induction ms using List.reverseRecOn with
  | nil => exact .inl rfl
  | append_singleton ms m ih =>
    have hs := sound_after o ms
    have hmove := Absorbs.of_move hs m
    rw [reads_concat, after_concat, hmove.received, List.map_append]
    obtain hall | ⟨text, hall, hclosed⟩ := ih
    · rw [hall]
      cases hread : (o.session.after ms).read? m with
      | none => exact .inl rfl
      | some frame =>
        cases frame with
        | ok text => exact .inl rfl
        | error text =>
          refine .inr ⟨text, ?_, hmove.failed text hread⟩
          simp [Except.toOption]
    · have hread : (o.session.after ms).read? m = none := by
        by_contra hne
        exact not_closed_of_ready hs (hmove.ready hne) hclosed
      have hstays : ((o.session.after ms).move m).stage = .closed := by
        rcases next_move hs m with hsame | hnext
        · rw [hsame, hclosed]
        · rw [hclosed] at hnext
          have hlt := hnext.rank_lt
          exact absurd hlt (Nat.not_lt.mpr (Stage.rank_le _))
      refine .inr ⟨text, ?_, hstays⟩
      rw [hread, hall]
      simp

/-! ### When the handler is given a message -/

/-- Among messages stands nothing else. -/
theorem messages_before {texts : List String} {front back rest : List Event} {text : String}
    (hrest : ∀ t, .message t ∉ rest)
    (h : front ++ .message text :: back <+: texts.map .message ++ rest) :
    ∀ e ∈ front, ∃ t, e = .message t := by
  induction texts generalizing front with
  | nil =>
    have hmem : .message text ∈ rest := h.subset (by simp)
    exact absurd hmem (hrest text)
  | cons t texts ih =>
    cases front with
    | nil => nofun
    | cons e front =>
      obtain ⟨rfl, htail⟩ := List.cons_prefix_cons.mp h
      intro e' he'
      rcases List.mem_cons.mp he' with rfl | hmem
      · exact ⟨t, rfl⟩
      · exact ih htail e' hmem

/-- In a report messages come after the connection and before everything else. -/
theorem Report.before_message {r : Report} {front back : List Event} {text : String}
    (h : front ++ .message text :: back <+: r.events) :
    ∃ name, ∃ texts : List String, front = .connected name :: texts.map .message := by
  have hrest : ∀ t, .message t ∉ r.fault.toList.map Event.error ++ [.closed r.reason] := by
    intro t
    cases r.fault <;> simp
  rw [events, prelude, welcome, List.append_assoc] at h
  cases hg : r.greeting with
  | none =>
    rw [hg, List.nil_append] at h
    have hmem := h.subset (List.mem_append_right front List.mem_cons_self)
    exact absurd hmem (hrest text)
  | some greeting =>
    rw [hg] at h
    cases front with
    | nil =>
      have hhead := (List.cons_prefix_cons.mp h).1
      cases hhead
    | cons e front =>
      obtain ⟨rfl, htail⟩ := List.cons_prefix_cons.mp h
      have hfront := messages_before hrest htail
      refine ⟨greeting.1, front.filterMap Event.message?, congrArg _ ?_⟩
      clear h htail
      induction front with
      | nil => rfl
      | cons e front ih =>
        obtain ⟨t, rfl⟩ := hfront e List.mem_cons_self
        exact congrArg _ (ih fun e he => hfront e (List.mem_cons_of_mem _ he))

theorem callbacks_tearDown (s : Session) (cause : Panic) :
    (s.tearDown cause).callbacks = s.callbacks := by
  cases hr : s.running with
  | false =>
    rw [tearDown_of_not_running hr]
    rfl
  | true =>
    obtain hl | hl := (tearDown_of_running hr cause).log
    · exact callbacks_of_log hl
    · exact callbacks_of_silent hl rfl

/-- What a handler was told is the beginning of a report, whatever panicked. -/
theorem callbacks_prefix (o : Origin) (ms : List Move) :
    ∃ r : Report, (o.session.after ms).callbacks <+: r.events := by
  induction ms using List.reverseRecOn with
  | nil => exact ⟨{}, List.nil_prefix⟩
  | append_singleton ms m ih =>
    by_cases hover : (o.session.after ms).position = .over
    · obtain ⟨r, hr⟩ := ih
      rw [(beside_of_over hover [m]).callbacks]
      exact ⟨r, hr⟩
    · obtain ⟨r, hr⟩ := told_of_standing hover
      rw [after_concat]
      by_cases hquiet : (o.session.after ms).raised? m = none
      · obtain ⟨r', hr'⟩ := hr.moves (sound_after o ms) (moves _ m) hquiet
        exact ⟨r', hr'.callbacks_prefix⟩
      · obtain ⟨message, hpanic⟩ := performed?_of_raised hquiet
        obtain ⟨deeds, hmove, -⟩ := move_of_performed hpanic
        rw [hmove, act, callbacks_tearDown]
        exact ⟨r, hr.callbacks_prefix⟩

/-! ### How long a session reads -/

/-- The receive region is reading. -/
structure IsReading (s : Session) : Prop where
  place : ∃ turn tx, s.position = .active turn .reading tx
  stage : s.stage ≠ .closed

/-- What makes the receive region read no more. -/
inductive Silences (s : Session) : Move → Prop
  /-- The stream has ended, and all of it was read. -/
  | heardOut (ended : s.link.ended = true) (unread : s.link.unread = []) : Silences s .tick
  | misread {m : Move} {text : String} (h : s.read? m = some (.error text)) : Silences s m
  /-- Writing or closing fails. -/
  | breaks {m : Move} {phase : Phase} {text : String} (hphase : phase = .write ∨ phase = .close)
      (h : s.condition? m = some (.transport phase text)) : Silences s m
  | letGo {m : Move} (h : s.LetsGo m) : Silences s m
  /-- A callback panics while the future runs. -/
  | panics {m : Move} (running : s.running = true) (h : s.raised? m ≠ none) : Silences s m

/-- The receive region was silenced in the course of the moves. -/
def WasSilenced (s : Session) (ns : List Move) : Prop :=
  ∃ before m rest, ns = before ++ m :: rest ∧ (s.after before).IsReading ∧
    (s.after before).Silences m

namespace IsReading

/-- Reading goes on wherever the receive region stays. -/
theorem of_same {turn : Turn} {tx : Transmitting} (h : IsReading s)
    (position : t.position = .active turn .reading tx) (stage : t.stage = s.stage) :
    IsReading t := by
  refine ⟨⟨turn, tx, position⟩, ?_⟩
  rw [stage]
  exact h.stage

theorem beside (h : IsReading s) (hb : Beside s t) : IsReading t := by
  obtain ⟨turn, tx, hp⟩ := h.place
  refine ⟨⟨turn, tx, hb.position.trans hp⟩, ?_⟩
  rcases hb.stage with hsame | ⟨-, hclosing⟩
  · rw [hsame]
    exact h.stage
  · rw [hclosing]
    nofun

/-- Reading that goes on was not interrupted. -/
theorem ready (h : IsReading s) (hs : Sound s) : s.progress.receive.isReady = true := by
  obtain ⟨turn, tx, hp⟩ := h.place
  have hfits := hs.fits
  rw [hp] at hfits
  refine hs.coherent.isReady_iff.mpr ?_
  have hopen := h.stage
  cases hstage : s.progress.stage with
  | notStarted => exact absurd hstage hfits.1.1
  | handshaking => exact absurd hstage hfits.1.2.1
  | active => exact .inl rfl
  | closing => exact .inr rfl
  | closed => exact absurd hstage hopen

theorem not_pulled (h : IsReading s) (hs : Sound s) : s.progress.receive ≠ .pulled := by
  intro hpulled
  have hready := h.ready hs
  rw [hpulled] at hready
  cases hready

theorem tick_of_advance (hd : s.doing = []) (hr : s.running = true) :
    s.read? .tick = s.nextFrame? ∧ s.condition? .tick = s.observed? := by
  rw [read?, condition?, hd, hr]
  exact ⟨rfl, rfl⟩

/-- A fault that the receive region meets is a read error, or the end of the stream. -/
theorem silences_of_fault {e : Ending} (hd : s.doing = []) (hr : s.running = true)
    (hf : s.fault? = some e) {turn : Turn} {tx : Transmitting}
    (hp : s.position = .active turn .reading tx) : Silences s .tick := by
  obtain ⟨hread, hcondition⟩ := tick_of_advance hd hr
  have hobserved := observed?_of_fault hf
  cases turn with
  | transmit =>
    rw [fault?, hp] at hf
    change s.transmitFault? tx = some e at hf
    have hphase : ∃ phase text, (phase = .write ∨ phase = .close) ∧
        e = .transport phase text := by
      cases tx <;> simp only [transmitFault?, Option.map_eq_some_iff, reduceCtorEq] at hf <;>
        obtain ⟨text, -, rfl⟩ := hf <;> first | exact ⟨_, _, .inl rfl, rfl⟩ | exact ⟨_, _,
          .inr rfl, rfl⟩
    obtain ⟨phase, text, hphase, rfl⟩ := hphase
    exact .breaks hphase (hcondition.trans hobserved)
  | receive =>
    rw [fault?, hp] at hf
    change s.receiveFault? = some e at hf
    rw [receiveFault?] at hf
    split at hf
    · cases hf
    · next hpulled =>
      split at hf
      · cases hf
      · next text link hn =>
        have herror : s.read? .tick = some (.error text) := by
          simp [hread, nextFrame?, hp, hpulled, hn]
        exact .misread herror
      · next hn =>
        split at hf
        · next hend => exact .heardOut hend.1 (Link.next?_eq_none_iff.mp hn)
        · cases hf

theorem advances (h : IsReading s) (hs : Sound s) (hd : s.doing = []) (hr : s.running = true)
    (ha : Advances s t) : IsReading t ∨ Silences s .tick := by
  obtain ⟨turn, tx, hp⟩ := h.place
  cases ha with
  | fails hf link hl => exact .inr (silences_of_fault hd hr hf hp)
  | goes hg =>
    cases hg with
    | interrupted hp' hi => exact absurd hi (h.not_pulled hs)
    | ranDry hp' hi hn he hst => exact .inr (.heardOut he (Link.next?_eq_none_iff.mp hn))
    | hasAnnounced hp' hf hh =>
      rw [hp] at hp'
      cases hp'
      exact .inl (h.of_same rfl rfl)
    | stopped hp' | resumed hp' | unclosable hp' | hasRead hp' | bothDone hp' =>
      rw [hp] at hp'
      cases hp'
  | sleeps hg =>
    cases hg with
    | discarding hp' =>
      rw [hp] at hp'
      cases hp'
    | flushing hp' | announced hp' | closing hp' =>
      rw [hp] at hp'
      cases hp'
      exact .inl (h.of_same rfl rfl)
  | shuts hg =>
    rw [wireClosed_eq]
    cases hg with
    | discarding hp' =>
      rw [hp] at hp'
      cases hp'
    | closing hp' =>
      rw [hp] at hp'
      cases hp'
      exact .inl (h.of_same rfl rfl)
  | records hp' =>
    rw [hp] at hp'
    cases turn with
    | receive => cases hp'
    | transmit =>
      have hplace : s.position.dismissed = .active .transmit .reading .done := by rw [hp]; rfl
      exact .inl (h.of_same hplace rfl)
  | hands => exact .inl (h.of_same hp rfl)
  | asks hp' hw =>
    rw [hp] at hp'
    cases hp'
    rw [passOn_eq]
    exact .inl (h.of_same rfl rfl)
  | isDenied hp' hw => exact absurd hw (hs.wait?_ne_none hp')
  | rests hp' =>
    have hcan := hs.runs hr
    rcases hp' with hp' | hp' | hp' <;> rw [hp'] at hcan <;> exact absurd hcan id
  | abandons hp' =>
    rw [hp] at hp'
    rcases hp' with hp' | hp' | ⟨hp', -⟩ <;> cases hp'
  | listens hp' | takes hp' | parts hp' | idles hp' | writes hp' | hasWritten hp' | announces hp'
  | lingers hp' =>
    rw [hp] at hp'
    cases hp'
    exact .inl (h.of_same rfl rfl)
  | prepares hp' | begins hp' | hopes hp' | opens hp' | turnsAway hp' | connects hp'
  | concludes hp' | finishes hp' =>
    rw [hp] at hp'
    cases hp'

/-- **What is reading reads on, unless something silences it.** -/
theorem move (h : IsReading s) (hs : Sound s) (m : Move) :
    IsReading (s.move m) ∨ Silences s m := by
  by_cases hquiet : s.running = true → s.raised? m = none
  · obtain ⟨turn, tx, hp⟩ := h.place
    generalize ht : s.move m = t
    have hm := moves s m
    rw [ht] at hm
    cases hm with
    | stays => exact .inl h
    | acts a => exact .inl (h.beside (.of_act hquiet))
    | @does d rest hd =>
      rw [raised?_of_doing hd] at hquiet
      have hrest : Sound { s with doing := rest } := hs.aside (aside_doing s rest)
      exact .inl (h.beside (.of_doing (.of_perform hrest hquiet)))
    | advances hd hr ha => exact h.advances hs hd hr ha
    | hands hp' | refuses hp' | disowns hp' =>
      rw [hp] at hp'
      cases hp'
    | drops hr hcan => exact .inr (.letGo ⟨hr, hcan⟩)
    | resumes => exact .inl (h.of_same hp rfl)
    | misses => exact .inl (h.of_same hp rfl)
    | shuts => exact .inl (h.of_same hp rfl)
  · obtain ⟨hr, hraised⟩ := Classical.not_imp.mp hquiet
    exact .inr (.panics hr hraised)

end IsReading

/-- What was silenced stays silenced. -/
theorem WasSilenced.concat {ns : List Move} (h : WasSilenced s ns) (m : Move) :
    WasSilenced s (ns ++ [m]) := by
  obtain ⟨before, m', rest, rfl, hreading, hsilences⟩ := h
  exact ⟨before, m', rest ++ [m], by simp, hreading, hsilences⟩

/-! ### What is read after the end -/

/-- Nothing is read from a session that is closed. -/
theorem reads_of_closed {o : Origin} {ms : List Move} (h : (o.session.after ms).stage = .closed)
    (ns : List Move) : (o.session.after ms).reads ns = [] := by
  induction ns using List.reverseRecOn with
  | nil => rfl
  | append_singleton ns m ih =>
    have hclosed := closed_append h ns
    have hmove := Absorbs.of_move (sound_after o (ms ++ ns)) m
    rw [after_append] at hclosed hmove
    have hread : ((o.session.after ms).after ns).read? m = none := by
      by_contra hne
      have hs := sound_after o (ms ++ ns)
      rw [after_append] at hs
      exact not_closed_of_ready hs (hmove.ready hne) hclosed
    rw [reads_concat, ih, hread]
    rfl

/-- Every failure closes the session. -/
theorem stage_of_failure (hs : Sound s) {m : Move} {e : Ending} (h : s.condition? m = some e)
    (hne : e ≠ .cancelled) : (s.move m).stage = .closed := by
  have hquiet : s.raised? m = none := by
    by_contra hraised
    rw [condition?_of_raised hraised] at h
    cases h
  exact (observes_move hs m hquiet).closes e h hne

/-! ### Where reading begins -/

/-- The handler is told of the connection when reading begins. -/
theorem greets_advances {name : String} (hs : Sound s) (ha : Advances s t)
    (h : .connected name ∈ t.callbacks) : .connected name ∈ s.callbacks ∨ IsReading t := by
  have silent : t.callbacks = s.callbacks → .connected name ∈ s.callbacks ∨ IsReading t := by
    intro hsame
    rw [hsame] at h
    exact .inl h
  have called : ∀ e, t.log = e :: s.log → (∀ name, e ≠ .connected name) →
      .connected name ∈ s.callbacks ∨ IsReading t := by
    intro e hlog hne
    rw [callbacks_of_cons hlog, List.mem_append, List.mem_filter] at h
    rcases h with hmem | ⟨hmem, -⟩
    · exact .inl hmem
    · exact absurd (List.mem_singleton.mp hmem).symm (hne name)
  cases ha with
  | connects hp hv => exact .inr ⟨⟨_, _, rfl⟩, nofun⟩
  | shuts hg =>
    rw [wireClosed_eq] at called ⊢
    exact called .wireClosed rfl nofun
  | begins hp hh => exact called .handshake rfl nofun
  | abandons hp hh => exact called .abandoned rfl nofun
  | @fails e hf link hl =>
    by_cases hv : s.progress.verdict = none
    · refine called (.error e) ?_ nofun
      rw [fail_eq]
      exact if_pos hv
    · refine silent (callbacks_of_log ?_)
      rw [fail_eq]
      exact if_neg hv
  | @hands tx message link hp hready hn => exact called (.message message) rfl nofun
  | asks hp hw =>
    rw [passOn_eq] at silent ⊢
    exact silent rfl
  | isDenied hp hw => exact absurd hw (hs.wait?_ne_none hp)
  | @writes rx message hp hf => exact called (.write message) rfl nofun
  | @announces rx frame hp hf => exact called (.write frame) rfl nofun
  | @concludes resolves hp =>
    refine called (.closed s.reason) ?_ nofun
    rw [conclude_eq]
  | finishes hp =>
    rw [finish_eq, unhookEngine_eq] at silent ⊢
    exact silent rfl
  | _ => exact silent rfl

theorem greets_move {name : String} (hs : Sound s) (m : Move)
    (h : .connected name ∈ (s.move m).callbacks) :
    .connected name ∈ s.callbacks ∨ IsReading (s.move m) := by
  have acted : ∀ (deeds : List Deed) (d : Deed),
      .connected name ∈ (perform { s with doing := deeds } d).callbacks →
        .connected name ∈ s.callbacks := by
    intro deeds d hmem
    by_cases hquiet : d.raised? = none
    · have hrest : Sound { s with doing := deeds } := hs.aside (aside_doing s deeds)
      rwa [(Beside.of_perform hrest fun _ => hquiet).callbacks] at hmem
    · cases d with
      | act a =>
        obtain ⟨message, rfl⟩ := Act.eq_panic_of_raised hquiet
        rwa [perform, act, callbacks_tearDown] at hmem
      | engineStop => exact absurd rfl hquiet
      | heard id => exact absurd rfl hquiet
  have hm := moves s m
  generalize s.move m = t at h hm ⊢
  cases hm with
  | acts a => exact .inl (acted s.doing (.act a) h)
  | @does d rest hd => exact .inl (acted rest d h)
  | advances hd hr ha => exact greets_advances hs ha h
  | drops hr hp =>
    rw [releaseOperations_eq] at h
    refine .inl ?_
    have hsame : Session.callbacks { s with log := s.lastWords ++ s.log } = s.callbacks := by
      unfold lastWords
      split <;> first | rfl | exact callbacks_of_silent rfl rfl
    exact hsame ▸ h
  | disowns hp =>
    rw [unhookEngine_eq] at h
    exact .inl h
  | _ => exact .inl h

theorem reading_or_silenced {o : Origin} {ms : List Move} {name : String}
    (h : .connected name ∈ (o.session.after ms).callbacks) :
    (o.session.after ms).IsReading ∨ o.session.WasSilenced ms := by
  induction ms using List.reverseRecOn with
  | nil => cases h
  | append_singleton ms m ih =>
    have hs := sound_after o ms
    rw [after_concat] at h ⊢
    rcases greets_move hs m h with hbefore | hreading
    · rcases ih hbefore with hreading | hsilenced
      · rcases hreading.move hs m with hgoes | hsilences
        · exact .inl hgoes
        · exact .inr ⟨ms, m, [], rfl, hreading, hsilences⟩
      · exact .inr (hsilenced.concat m)
    · exact .inl hreading

theorem IsReading.run (h : IsReading s) (hs : Sound s) (ns : List Move) :
    IsReading (s.after ns) ∨ s.WasSilenced ns := by
  induction ns using List.reverseRecOn with
  | nil => exact .inl h
  | append_singleton ns m ih =>
    rcases ih with hreading | hsilenced
    · rw [after_concat]
      rcases hreading.move (hs.after ns) m with hgoes | hsilences
      · exact .inl hgoes
      · exact .inr ⟨ns, m, [], rfl, hreading, hsilences⟩
    · exact .inr (hsilenced.concat m)

/-- What silences a session later on silences it in the whole. -/
theorem WasSilenced.of_after {ns ls : List Move} (h : (s.after ns).WasSilenced ls) :
    s.WasSilenced (ns ++ ls) := by
  obtain ⟨before, m, rest, rfl, hreading, hsilences⟩ := h
  exact ⟨ns ++ before, m, rest, by simp, by rwa [after_append], by rwa [after_append]⟩

end Dialogue.Session
