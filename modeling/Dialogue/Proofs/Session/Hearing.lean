/-
Every frame of the peer gets its turn.

A session that reads has its next frame read as soon as the executor gets to it.  This is not a
matter of the receive region alone.  A callback may have things left to do, the transmit region may
be in the middle of its turn, and the task may be waiting to be woken.  The first come to an end,
`toGo` counts down the second, and a task with a frame to read is in line.  How long a session
reads, and what it does with what it has read, is known; `HearsPeer` says all of it together.
-/
import Dialogue.Proofs.Session.Reading

namespace Dialogue.Session

variable {s t : Session}

/-! ### Every frame gets its turn

The executor polls the task when it is in line, and a poll takes its steps.  That is enough to read
the next frame: what callbacks have to do comes to an end, the transmit region comes to where it
waits, and the task of a session with a frame to read is in line.
-/

/-- How many steps of the transmit region a place is worth. -/
def Transmitting.toGo : Transmitting → Nat
  | writing _ => 7
  | flushing => 6
  | asking => 5
  | waiting _ => 4
  | announcing _ => 3
  | announced => 2
  | closing | failing _ => 1
  | done => 0

/-- How many steps the transmit region takes at most until it waits. -/
def toGo (s : Session) (tx : Transmitting) : Nat :=
  4 * s.outbox.values.length + tx.toGo

theorem toGo_parting_lt (s : Session) : s.parting.toGo < 4 := by
  unfold parting
  split
  · split
    · exact Nat.lt_succ_self 3
    · decide
  · decide

/-- In its turn the transmit region takes a step towards the end of the poll. -/
theorem transmit_advances {tx : Transmitting} (h : IsReading s) (hs : Sound s) (hd : s.doing = [])
    (hr : s.running = true) (hp : s.position = .active .transmit .reading tx) :
    Silences s .tick ∨ (s.move .tick).doing = [] ∧ IsReading (s.move .tick) ∧
      ((s.move .tick).running = false ∨ (s.move .tick).running = true ∧
        ∃ tx', (s.move .tick).position = .active .transmit .reading tx' ∧
          (s.move .tick).toGo tx' < s.toGo tx) := by
  rw [tick_of_running hd hr]
  have ha := Session.advances s
  rcases h.advances hs hd hr ha with hreading | hsilences
  · refine .inr ?_
    generalize s.advance = t at ha hreading ⊢
    have waits : t.doing = s.doing → t.running = false →
        t.doing = [] ∧ IsReading t ∧ (t.running = false ∨ t.running = true ∧
          ∃ tx', t.position = .active .transmit .reading tx' ∧ t.toGo tx' < s.toGo tx) :=
      fun hdoing hrunning => ⟨hdoing.trans hd, hreading, .inl hrunning⟩
    have goesOn : ∀ tx', t.doing = s.doing → t.running = s.running →
        t.position = .active .transmit .reading tx' → t.outbox.values = s.outbox.values →
        tx'.toGo < tx.toGo →
        t.doing = [] ∧ IsReading t ∧ (t.running = false ∨ t.running = true ∧
          ∃ tx', t.position = .active .transmit .reading tx' ∧ t.toGo tx' < s.toGo tx) := by
      intro tx' hdoing hrunning hplace hvalues hlt
      refine ⟨hdoing.trans hd, hreading, .inr ⟨hrunning.trans hr, tx', hplace, ?_⟩⟩
      rw [toGo, toGo, hvalues]
      exact Nat.add_lt_add_left hlt _
    cases ha with
    | fails hf link hl =>
      refine absurd ?_ hreading.stage
      rw [stage, fail_eq]
    | rests hp' => rcases hp' with hp' | hp' | hp' <;> rw [hp] at hp' <;> cases hp'
    | abandons hp' => rcases hp' with hp' | hp' | ⟨hp', -⟩ <;> rw [hp] at hp' <;> cases hp'
    | goes hg =>
      cases hg with
      | hasAnnounced hp' =>
        rw [hp] at hp'
        cases hp'
        exact goesOn .closing rfl rfl rfl rfl (by decide)
      | stopped hp' | resumed hp' | unclosable hp' | hasRead hp' | interrupted hp' | ranDry hp'
      | bothDone hp' =>
        rw [hp] at hp'
        cases hp'
    | sleeps hg => exact waits rfl rfl
    | shuts hg =>
      rw [wireClosed_eq] at *
      cases hg with
      | discarding hp' =>
        rw [hp] at hp'
        cases hp'
      | closing hp' =>
        rw [hp] at hp'
        cases hp'
        exact goesOn .done rfl rfl rfl rfl (by decide)
    | records hp' =>
      rw [hp] at hp'
      have hplace : s.position.dismissed = .active .transmit .reading .done := by rw [hp]; rfl
      unfold Position.reported? at hp'
      split at hp'
      · next heq => cases heq
      · next heq => cases heq
      · next heq =>
        cases heq
        exact goesOn .done rfl rfl hplace rfl (by decide : 0 < 1)
      · cases hp'
    | asks hp' hw =>
      rw [hp] at hp'
      cases hp'
      obtain ⟨-, -, -, -, hvalues, -⟩ := Handoff.Queue.of_wait? (fun _ => rfl) hw
      rw [passOn_eq] at *
      exact goesOn (.waiting _) rfl rfl rfl hvalues (by decide : 4 < 5)
    | isDenied hp' hw => exact absurd hw (hs.wait?_ne_none hp')
    | takes hp' ho =>
      rw [hp] at hp'
      cases hp'
      obtain ⟨d, r, hres, hpolled, rfl⟩ | ⟨-, hpolled, -⟩ := hs.poll_waiting hp ho
      · cases hpolled
        obtain ⟨-, hd', -⟩ | ⟨-, a, rest, hvalues, -, rfl⟩ :=
          Handoff.Queue.of_nextResult? hres
        · cases hd'
        · refine ⟨hd, hreading, .inr ⟨hr, _, rfl, ?_⟩⟩
          simp only [toGo, hvalues, setTransmission, goto, List.length_cons, Transmitting.toGo]
          omega
      · cases hpolled
    | parts hp' ho hend =>
      rw [hp] at hp'
      cases hp'
      obtain ⟨-, rfl⟩ := hs.ending_of_parts hp ho hend
      exact goesOn s.parting rfl rfl rfl rfl (toGo_parting_lt s)
    | idles => exact waits rfl rfl
    | writes hp' =>
      rw [hp] at hp'
      cases hp'
      exact goesOn .flushing rfl rfl rfl rfl (by decide : 6 < 7)
    | hasWritten hp' =>
      rw [hp] at hp'
      cases hp'
      exact goesOn .asking rfl rfl rfl rfl (by decide)
    | announces hp' =>
      rw [hp] at hp'
      cases hp'
      exact goesOn .announced rfl rfl rfl rfl (by decide : 2 < 3)
    | lingers => exact waits rfl rfl
    | prepares hp' | begins hp' | hopes hp' | opens hp' | turnsAway hp' | connects hp' | hands hp'
    | listens hp' | concludes hp' | finishes hp' =>
      rw [hp] at hp'
      cases hp'
  · exact .inl hsilences

/-- A poll in which the transmit region has its turn comes to an end. -/
theorem poll_ends {tx : Transmitting} (h : IsReading s) (hs : Sound s) (hd : s.doing = [])
    (hr : s.running = true) (hp : s.position = .active .transmit .reading tx) :
    ∃ n, s.WasSilenced (.replicate n .tick) ∨
      (s.after (.replicate n .tick)).doing = [] ∧
      (s.after (.replicate n .tick)).running = false := by
  induction hn : s.toGo tx using Nat.strongRecOn generalizing s tx with
  | _ k ih =>
    rcases transmit_advances h hs hd hr hp with hsilences | ⟨hdone, hreading, hrest⟩
    · exact ⟨1, .inl ⟨[], .tick, [], rfl, h, hsilences⟩⟩
    · rcases hrest with hrests | ⟨hgoes, tx', hp', hlt⟩
      · exact ⟨1, .inr ⟨hdone, hrests⟩⟩
      · rw [hn] at hlt
        obtain ⟨n, hend⟩ := ih _ hlt hreading (hs.move .tick) hdone hgoes hp' rfl
        refine ⟨n + 1, ?_⟩
        rw [List.replicate_succ]
        rcases hend with hsilenced | hrests
        · refine .inl ?_
          have hlater : (s.after [.tick]).WasSilenced (.replicate n .tick) := hsilenced
          exact hlater.of_after
        · exact .inr hrests

/-- What the executor does for a session: it polls the task when it is in line. -/
def Move.isExecutors : Move → Bool
  | tick | turn => true
  | _ => false

/-- The executor's moves have a frame read, or the session is silenced in them. -/
def ReadsOrEnds (s : Session) (ns : List Move) : Prop :=
  (∀ m ∈ ns, m.isExecutors = true) ∧ (s.reads ns ≠ [] ∨ s.WasSilenced ns)

theorem isExecutors_ticks (n : Nat) :
    ∀ m ∈ List.replicate n Move.tick, m.isExecutors = true := by
  intro m hm
  rw [List.eq_of_mem_replicate hm]
  rfl

/-- If no frame was read, what was unread still is. -/
theorem unread_ne_nil (hs : Sound s) (hunread : s.link.unread ≠ []) {ns : List Move}
    (hreads : s.reads ns = []) : (s.after ns).link.unread ≠ [] := by
  have hall := unread_after hs ns
  rw [hreads, List.nil_append] at hall
  rw [← hall]
  exact List.append_ne_nil_of_left_ne_nil hunread _

/-- A frame is read as soon as the receive region has its turn. -/
theorem reads_tick {tx : Transmitting} (h : IsReading s) (hs : Sound s) (hd : s.doing = [])
    (hr : s.running = true) (hp : s.position = .active .receive .reading tx)
    (hunread : s.link.unread ≠ []) : s.reads [.tick] ≠ [] := by
  have hnext : s.link.next? ≠ none := fun hn => hunread (Link.next?_eq_none_iff.mp hn)
  obtain ⟨⟨frame, link⟩, hn⟩ := Option.ne_none_iff_exists'.mp hnext
  have hread : s.read? .tick = some frame := by
    simp [read?, hd, hr, nextFrame?, hp, h.not_pulled hs, hn]
  rw [reads, seen, hread]
  exact List.cons_ne_nil _ _

/-- The task of a session with a frame to read is in line, unless it is being polled. -/
theorem queued_of_unread (h : IsReading s) (hs : Sound s) (hw : Wakeful s) (hr : s.running = false)
    (hunread : s.link.unread ≠ []) : s.queued = true := by
  rcases hw with hqueued | hattentive
  · exact hqueued
  · obtain ⟨turn, tx, hp⟩ := h.place
    have hrest := hs.rests hr
    rw [hp] at hrest
    obtain ⟨rfl, -, -⟩ := hrest
    unfold Attentive at hattentive
    rw [hp] at hattentive
    exact absurd ((hattentive hr).1 rfl).unread hunread

theorem reads_turn (h : IsReading s) (hs : Sound s) (hw : Wakeful s) (hd : s.doing = [])
    (hr : s.running = false) (hunread : s.link.unread ≠ []) : s.reads [.turn, .tick] ≠ [] := by
  obtain ⟨turn, tx, hp⟩ := h.place
  have hrest := hs.rests hr
  rw [hp] at hrest
  obtain ⟨rfl, -, -⟩ := hrest
  have hmove : s.move .turn = { s with queued := false, running := true } := by
    simp [move, queued_of_unread h hs hw hr hunread, hr, resume, hp]
  have hreading : IsReading (s.move .turn) := by
    rw [hmove]
    exact h.of_same hp rfl
  have hread := reads_tick hreading (hs.move .turn) (by rw [hmove]; exact hd) (by rw [hmove])
    (by rw [hmove]; exact hp) (by rw [hmove]; exact hunread)
  rw [reads, seen] at hread ⊢
  rw [seen]
  simpa [read?] using hread

/-- It is enough to go on from where nothing was read and the session is still to be silenced. -/
theorem ReadsOrEnds.of_after (h : IsReading s) (hs : Sound s) (hunread : s.link.unread ≠ [])
    {ns : List Move} (executors : ∀ m ∈ ns, m.isExecutors = true)
    (next : IsReading (s.after ns) → (s.after ns).link.unread ≠ [] →
      ∃ ls, (s.after ns).ReadsOrEnds ls) : ∃ ls, s.ReadsOrEnds ls := by
  rcases h.run hs ns with hreading | hsilenced
  · by_cases hreads : s.reads ns = []
    · obtain ⟨ls, hexecutors, hends⟩ := next hreading (unread_ne_nil hs hunread hreads)
      refine ⟨ns ++ ls, ?_, ?_⟩
      · intro m hm
        rcases List.mem_append.mp hm with hm | hm
        · exact executors m hm
        · exact hexecutors m hm
      · rcases hends with hread | hsilenced
        · refine .inl ?_
          rw [reads_append, hreads]
          exact hread
        · exact .inr hsilenced.of_after
    · exact ⟨ns, executors, .inl hreads⟩
  · exact ⟨ns, executors, .inr hsilenced⟩

/-- **The executor has the next frame read, or the session is silenced.** -/
theorem reads_next {o : Origin} {ms : List Move} (h : (o.session.after ms).IsReading)
    (hunread : (o.session.after ms).link.unread ≠ []) :
    ∃ ns, (o.session.after ms).ReadsOrEnds ns := by
  have perm : ∀ l, ((o.session.after ms).order l).Perm l := by
    rw [order_after]
    exact o.order_perm
  have wakeful : ∀ ns, Wakeful ((o.session.after ms).after ns) := by
    intro ns
    rw [← after_append]
    exact wakeful_after o (ms ++ ns)
  have hs := sound_after o ms
  generalize o.session.after ms = s at *
  have resting : ∀ ns, IsReading (s.after ns) → (s.after ns).doing = [] →
      (s.after ns).running = false → (s.after ns).link.unread ≠ [] →
      ∃ ls, (s.after ns).ReadsOrEnds ls := by
    intro ns hreading hdone hrests hleft
    refine ⟨[.turn, .tick], by simp [Move.isExecutors], .inl ?_⟩
    exact reads_turn hreading (hs.after ns) (wakeful ns) hdone hrests hleft
  obtain ⟨n, hdone, -⟩ := callbacks_end perm
  refine ReadsOrEnds.of_after h hs hunread (isExecutors_ticks n) ?_
  intro hreading hleft
  have hsound := hs.after (.replicate n .tick)
  cases hr : (s.after (.replicate n .tick)).running with
  | false => exact resting _ hreading hdone hr hleft
  | true =>
    obtain ⟨turn, tx, hp⟩ := hreading.place
    cases turn with
    | receive =>
      exact ⟨[.tick], isExecutors_ticks 1, .inl (reads_tick hreading hsound hdone hr hp hleft)⟩
    | transmit =>
      obtain ⟨k, hsilenced | ⟨hdone', hrests⟩⟩ := poll_ends hreading hsound hdone hr hp
      · exact ⟨_, isExecutors_ticks k, .inr hsilenced⟩
      · refine ReadsOrEnds.of_after hreading hsound hleft (isExecutors_ticks k) ?_
        rw [← after_append] at hdone' hrests ⊢
        exact fun hreading' hleft' => resting _ hreading' hdone' hrests hleft'

/-- Every frame that has arrived is read in time, or the session is silenced. -/
theorem reads_all {o : Origin} {ms : List Move} (h : (o.session.after ms).IsReading) {k : Nat}
    (hk : k < (o.link.unread ++ o.session.arrivals ms).length) :
    ∃ ns, (∀ m ∈ ns, m.isExecutors = true) ∧
      (k < (o.session.reads (ms ++ ns)).length ∨ (o.session.after ms).WasSilenced ns) := by
  induction hn : k + 1 - (o.session.reads ms).length using Nat.strongRecOn generalizing ms with
  | _ left ih =>
    by_cases hread : k < (o.session.reads ms).length
    · exact ⟨[], nofun, .inl (by rwa [List.append_nil])⟩
    · have hunread : (o.session.after ms).link.unread ≠ [] := by
        intro hempty
        have hall := unread_after o.sound ms
        rw [hempty, List.append_nil] at hall
        have hlength := congrArg List.length hall
        change (o.link.unread ++ o.session.arrivals ms).length = _ at hlength
        omega
      obtain ⟨ns, hexecutors, hmore | hsilenced⟩ := reads_next h hunread
      · rcases h.run (sound_after o ms) ns with hreading | hsilenced
        · have hlength : (o.session.reads (ms ++ ns)).length
              = (o.session.reads ms).length + ((o.session.after ms).reads ns).length := by
            rw [reads_append, List.length_append]
          have hpos := List.length_pos_of_ne_nil hmore
          have harrived : k < (o.link.unread ++ o.session.arrivals (ms ++ ns)).length := by
            have hgrows : o.session.arrivals (ms ++ ns)
                = o.session.arrivals ms ++ (o.session.after ms).arrivals ns :=
              seen_append move arrival? o.session ms ns
            rw [hgrows, ← List.append_assoc, List.length_append]
            omega
          rw [← after_append] at hreading
          obtain ⟨ls, hexecutors', hend⟩ := ih _ (by omega) hreading harrived rfl
          refine ⟨ns ++ ls, ?_, ?_⟩
          · intro m hm
            rcases List.mem_append.mp hm with hm | hm
            · exact hexecutors m hm
            · exact hexecutors' m hm
          · rw [← List.append_assoc]
            rw [after_append] at hend
            exact hend.imp_right fun hsilenced => hsilenced.of_after
        · exact ⟨ns, hexecutors, .inr hsilenced⟩
      · exact ⟨ns, hexecutors, .inr hsilenced⟩

/-! ### While the handler has a message -/

/-- Callbacks of the future have something left to do all along the moves. -/
def IsBusy (s : Session) (ns : List Move) : Prop :=
  ∀ before m rest, ns = before ++ m :: rest → (s.after before).doing ≠ []

/-- As long as a callback of the future runs and nothing panics, an open session stays open. -/
theorem open_while_busy (hs : Sound s) (hr : s.running = true)
    (h : s.stage = .active ∨ s.stage = .closing) {ns : List Move} (quiet : s.raised ns = [])
    (busy : s.IsBusy ns) : (s.after ns).stage = .active ∨ (s.after ns).stage = .closing := by
  induction ns generalizing s with
  | nil => exact h
  | cons m ns ih =>
    rw [raised, seen, List.append_eq_nil_iff, Option.toList_eq_nil_iff] at quiet
    have hdoing : s.doing ≠ [] := busy [] m ns rfl
    obtain ⟨-, hd, -⟩ | hb := Beside.of_move (m := m) hs (.inl hr) fun _ => quiet.1
    · exact absurd hd hdoing
    · refine ih (hs.move m) (hb.running.trans hr) ?_ quiet.2 ?_
      · rcases hb.stage with hsame | ⟨-, hclosing⟩
        · rw [hsame]
          exact h
        · exact .inr hclosing
      · rintro before m' rest rfl
        exact busy (m :: before) m' rest rfl

/-- A message is given to the handler in a move that reads it. -/
theorem read?_of_received (hs : Sound s) {m : Move} {text : String}
    (h : (s.move m).received = s.received ++ [text]) : s.read? m = some (.ok text) := by
  have hmove := (Absorbs.of_move hs m).received
  rw [h, List.append_cancel_left_eq] at hmove
  cases hread : s.read? m with
  | none =>
    rw [hread] at hmove
    cases hmove
  | some frame =>
    rw [hread] at hmove
    cases frame with
    | ok text' =>
      cases hmove
      rfl
    | error text' => cases hmove

theorem open_while_handed (hs : Sound s) {m : Move} {text : String}
    (h : (s.move m).received = s.received ++ [text]) {ns : List Move}
    (quiet : (s.move m).raised ns = []) (busy : (s.move m).IsBusy ns) :
    ((s.move m).after ns).stage = .active ∨ ((s.move m).after ns).stage = .closing := by
  have hread := read?_of_received hs h
  have hmove := Absorbs.of_move hs m
  have hready := hmove.ready (by rw [hread]; nofun)
  obtain ⟨-, hstage, hrunning⟩ := hmove.handed text hread
  refine open_while_busy (hs.move m) hrunning ?_ quiet busy
  rw [hstage]
  exact hs.coherent.isReady_iff.mp hready

/-! ### Every run -/

/-- How a session hears its peer in a run. -/
structure HearsPeer (o : Origin) (ms : List Move) : Prop where
  /-- The messages given to the handler are a beginning of what has arrived. -/
  beginning : (o.session.after ms).received.map .ok <+: o.link.unread ++ o.session.arrivals ms
  /-- What has arrived was read in order, or is still to be read. -/
  ordered : o.link.unread ++ o.session.arrivals ms
    = o.session.reads ms ++ (o.session.after ms).link.unread
  /-- The frames that were read were given to the handler.  At most one error was read, behind them,
  and then the session is closed. -/
  given : o.session.reads ms = (o.session.after ms).received.map .ok ∨
    ∃ text, o.session.reads ms = (o.session.after ms).received.map .ok ++ [.error text] ∧
      (o.session.after ms).stage = .closed
  /-- Before a message the handler was told of the connection and of messages, and of nothing
  else. -/
  greeted : ∀ front text back, (o.session.after ms).callbacks = front ++ .message text :: back →
    ∃ name, ∃ texts : List String, front = .connected name :: texts.map .message
  /-- A message is given to the handler, and the handler returns, while the session is open. -/
  handed : ∀ m text, ((o.session.after ms).move m).received
    = (o.session.after ms).received ++ [text] →
    ∀ ns, ((o.session.after ms).move m).raised ns = [] →
      ((o.session.after ms).move m).IsBusy ns →
      (o.session.after (ms ++ m :: ns)).stage = .active ∨
        (o.session.after (ms ++ m :: ns)).stage = .closing
  /-- Once the handler was told of the connection, the session reads on until it is silenced. -/
  reading : ∀ name, .connected name ∈ (o.session.after ms).callbacks →
    (o.session.after ms).IsReading ∨ o.session.WasSilenced ms
  /-- A session that reads and that nobody has to run has read everything. -/
  waiting : (o.session.after ms).IsReading → (o.session.after ms).running = false →
    (o.session.after ms).queued = false → (o.session.after ms).link.unread = []
  /-- The executor has everything read that has arrived, or the session is silenced. -/
  served : (o.session.after ms).IsReading →
    ∀ k, k < (o.link.unread ++ o.session.arrivals ms).length →
      ∃ ns, (∀ m ∈ ns, m.isExecutors = true) ∧
        (k < (o.session.reads (ms ++ ns)).length ∨ (o.session.after ms).WasSilenced ns)
  /-- Nothing is read once the session is closed. -/
  closed : (o.session.after ms).stage = .closed → ∀ ns, (o.session.after ms).reads ns = []
  /-- Nothing is read after any failure. -/
  failed : ∀ m e, (o.session.after ms).condition? m = some e → e ≠ .cancelled →
    ∀ ns, ((o.session.after ms).move m).reads ns = []

/--
**Every frame of the peer is given to the handler, in order and once.**

In every run, whatever is dropped or panics, the messages given to the handler are a beginning of
what has arrived, and they come after the connection and before any failure.  The session reads from
the moment it is connected, and a stop does not keep it from that; only the end of the stream, a
read error, a write or close that fails, a dropped future or a panic does.
-/
theorem hearsPeer_of_run (o : Origin) (ms : List Move) : HearsPeer o ms := by
  have hs := sound_after o ms
  constructor
  case beginning =>
    have hall := unread_after o.sound ms
    change o.link.unread ++ _ = _ at hall
    rw [hall]
    rcases received_after o ms with hreads | ⟨text, hreads, -⟩
    · rw [hreads]
      exact List.prefix_append _ _
    · rw [hreads, List.append_assoc]
      exact List.prefix_append _ _
  case ordered => exact unread_after o.sound ms
  case given => exact received_after o ms
  case greeted =>
    intro front text back hsplit
    obtain ⟨r, hr⟩ := callbacks_prefix o ms
    rw [hsplit] at hr
    exact Report.before_message hr
  case handed =>
    intro m text hgiven ns quiet busy
    rw [after_append, after_cons]
    exact open_while_handed hs hgiven quiet busy
  case reading => exact fun name hgreeted => reading_or_silenced hgreeted
  case waiting =>
    intro hreading hrests hqueued
    by_contra hunread
    rw [queued_of_unread hreading hs (wakeful_after o ms) hrests hunread] at hqueued
    cases hqueued
  case served => exact fun hreading k hk => reads_all hreading hk
  case closed => exact fun hclosed ns => reads_of_closed hclosed ns
  case failed =>
    intro m e hcondition hne ns
    have hclosed := stage_of_failure hs hcondition hne
    rw [← after_concat] at hclosed ⊢
    exact reads_of_closed hclosed ns

end Dialogue.Session
