/-
One write at a time.

The sink of a connection may take any time over a write, and meanwhile everything else goes on:
frames are read, the session is stopped, it fails, its future is dropped.  What is reported to
handles as the state of transmission is set before a write and reset after it, and once more when
the session concludes.  This file shows that the report is true at every moment and that no write
begins before the one before it has completed.

`labors` is the history that says both: what the transmit region takes and hands on, how the sink
answers, and that the session concluded.  Of the position of the future only the duty of the
transmit region matters, and `Toils` lists how a move changes it.  The induction is on the run and
carries `Accounts`, which has one line for each duty.
-/
import Dialogue.Proofs.Session.Sink

namespace Dialogue.Session

/-! ### The history -/

/-- Something that bears on writing. -/
inductive Labor
  /-- A message is taken out of the outbox. -/
  | took (message : String)
  /-- The sink takes a frame. -/
  | started (frame : Frame)
  /-- The sink refuses a frame. -/
  | refused (frame : Frame)
  /-- The frame that the sink took is written. -/
  | completed
  /-- The frame that the sink took cannot be written. -/
  | failed
  /-- The sink is closed. -/
  | shut
  /-- The session concludes: its task comes to the end, is dropped, or is torn down by a panic. -/
  | concluded
deriving DecidableEq

namespace Labor

/-- The frame that is handed to the sink. -/
def frame? : Labor → Option Frame
  | started f | refused f => some f
  | _ => none

/-- What the sink does. -/
def wire? : Labor → Option Wire
  | started f => some (.started f)
  | completed => some .completed
  | shut => some .shut
  | _ => none

end Labor

/-- What the transmit region does next. -/
def Transmitting.labor? (s : Session) : Transmitting → Option Labor
  | waiting t =>
    match (s.outbox.poll t ()).1 with
    | .delivered (.value message) => some (.took message)
    | _ => none
  | writing message =>
    some (if s.link.sendFault = none then .started (.message message)
      else .refused (.message message))
  | announcing text =>
    some (if s.link.sendFault = none then .started (.close text) else .refused (.close text))
  | flushing | announced =>
    if s.link.flushFault = none then if s.link.held then none else some .completed else some .failed
  | closing => if s.link.closeFault = none ∧ s.link.closeHeld = false then some .shut else none
  | asking | failing _ | done => none

/-- What the future does next. -/
def nextLabor? (s : Session) : Option Labor :=
  match s.position with
  | .active .transmit _ tx => tx.labor? s
  | .discarding =>
    if s.link.closeFault = none ∧ s.link.closeHeld = false then some .shut else none
  | .finishing _ => some .concluded
  | _ => none

/-- The session has reported its end, or it never will. -/
def Position.isEnd : Position → Bool
  | concluding _ _ | .over => true
  | _ => false

/-- What is done in a move.  A panic concludes the session if it rises inside the future. -/
def labor? (s : Session) (m : Move) : Option Labor :=
  if (s.raised? m).isSome then
    if s.running && !s.position.isEnd then some .concluded else none
  else
    match m with
    | .tick => if s.doing.isEmpty && s.running then s.nextLabor? else none
    | _ => none

/-- All that bears on writing, in order. -/
def labors (s : Session) (ms : List Move) : List Labor :=
  seen move labor? s ms

variable {s t : Session}

theorem labor?_of_running (hd : s.doing = []) (hr : s.running = true) :
    s.labor? .tick = s.nextLabor? := by
  have hcalm : s.raised? .tick = none := by
    rw [raised?, performed?, hd]
    rfl
  simp [labor?, hcalm, hd, hr]

/-- Where the future does not go on, nothing is done but that the session may conclude. -/
theorem labor?_of_not_running {m : Move}
    (h : ¬ (m = .tick ∧ s.doing = [] ∧ s.running = true)) :
    s.labor? m = none ∨ s.labor? m = some .concluded := by
  unfold labor?
  split
  · split
    · exact .inr rfl
    · exact .inl rfl
  · refine .inl ?_
    split
    · refine if_neg ?_
      intro hgo
      rw [Bool.and_eq_true, List.isEmpty_iff] at hgo
      exact h ⟨rfl, hgo⟩
    · rfl

/-- The message that was taken, and neither written nor given up since. -/
def carried? (h : List Labor) : Option String :=
  h.foldl (fun held l =>
    match l with
    | .took message => some message
    | .completed | .failed | .refused _ | .concluded => none
    | .started _ | .shut => held) none

/-- Whatever frame the sink took, the next thing is that it was written, and it refused none. -/
def Written (h : List Labor) : Prop :=
  (∀ before frame after, h = before ++ .started frame :: after →
    after.head? = some .completed) ∧ ∀ frame, .refused frame ∉ h

/-- What has to be done before. -/
def Labor.Follows (before : List Labor) : Labor → Prop
  | started (.message text) | refused (.message text) =>
    Written before ∧ carried? before = some text
  | started (.close _) | refused (.close _) | shut => Written before ∧ carried? before = none
  | took _ => Written before ∧ carried? before = none
  | completed | failed | concluded => True

theorem carried?_concat (h : List Labor) (l : Labor) :
    carried? (h ++ [l]) =
      match l with
      | .took message => some message
      | .completed | .failed | .refused _ | .concluded => none
      | .started _ | .shut => carried? h := by
  rw [carried?, List.foldl_append]
  rfl

theorem written_nil : Written [] := by
  refine ⟨?_, nofun⟩
  intro before frame after h
  simp at h

/-- What is no frame does not add to what has to be written. -/
theorem Written.concat {h : List Labor} (hh : Written h) {l : Labor} (hl : l.frame? = none) :
    Written (h ++ [l]) := by
  refine ⟨?_, ?_⟩
  · intro before frame after heq
    rcases concat_eq_append_cons heq with ⟨-, rfl, -⟩ | ⟨rest, hinit, rfl⟩
    · cases hl
    · rw [List.head?_append, hh.1 before frame rest hinit]
      rfl
  · intro frame hmem
    rcases List.mem_append.mp hmem with hold | hlast
    · exact hh.2 frame hold
    · rw [← List.mem_singleton.mp hlast] at hl
      cases hl

/-- The frame that was taken last is written. -/
theorem Written.complete {h : List Labor} (hh : Written h) (frame : Frame) :
    Written (h ++ [.started frame] ++ [.completed]) := by
  refine ⟨?_, ?_⟩
  · intro before other after heq
    rcases concat_eq_append_cons heq with ⟨-, hlast, -⟩ | ⟨rest, hinit, rfl⟩
    · cases hlast
    · rcases concat_eq_append_cons hinit with ⟨-, -, rfl⟩ | ⟨middle, hold, rfl⟩
      · rfl
      · rw [List.head?_append, List.head?_append, hh.1 before other middle hold]
        rfl
  · intro other hmem
    rcases List.mem_append.mp hmem with hold | hlast
    · rcases List.mem_append.mp hold with hold | hlast
      · exact hh.2 other hold
      · cases List.mem_singleton.mp hlast
    · cases List.mem_singleton.mp hlast

/-! ### Duties -/

/-- What the transmit region has on its hands. -/
inductive Duty
  /-- It may take a message or hand on a frame. -/
  | ready
  /-- It took a message. -/
  | carrying (message : String)
  /-- The sink took the message. -/
  | flushing
  /-- The sink took the close frame. -/
  | announced
  /-- The sink is about to be closed, or is being closed. -/
  | closing
  /-- It is through, or never began. -/
  | past
  /-- The session is about to conclude, whatever the region was doing. -/
  | finishing
  | ended

def Transmitting.duty : Transmitting → Duty
  | asking | waiting _ | announcing _ => .ready
  | writing message => .carrying message
  | flushing => .flushing
  | announced => .announced
  | closing => .closing
  | failing _ | done => .past

def Position.duty : Position → Duty
  | engine | spawned | preparing | handshaking | awaiting | opened => .ready
  | active _ _ tx => tx.duty
  | discarding => .closing
  | neverRun | refusing _ => .past
  | finishing _ => .finishing
  | concluding _ _ | .over => .ended

theorem Position.duty_eq_ended_iff (p : Position) : p.duty = .ended ↔ p.isEnd = true := by
  cases p with
  | active turn rx tx => cases tx <;> simp [duty, Transmitting.duty, isEnd]
  | _ => simp [duty, isEnd]

/-- What a move does to the duty of the transmit region and to what is reported of it. -/
inductive Toils : Duty → Transmission → Option Labor → Duty → Transmission → Prop
  | rests {p x} : Toils p x none p x
  | takes {m x} : Toils .ready x (some (.took m)) (.carrying m) .sending
  | starts {m x} : Toils (.carrying m) x (some (.started (.message m))) .flushing x
  | refuses {m x} : Toils (.carrying m) x (some (.refused (.message m))) .past .idle
  | writes {x} : Toils .flushing x (some .completed) .ready .idle
  | fails {x} : Toils .flushing x (some .failed) .past .idle
  | announces {text x} : Toils .ready x (some (.started (.close text))) .announced x
  /-- The close frame is refused. -/
  | mutes {text x} : Toils .ready x (some (.refused (.close text))) .past x
  | hasAnnounced {x} : Toils .announced x (some .completed) .closing x
  | breaksOff {x} : Toils .announced x (some .failed) .past x
  /-- There is no close frame, or no session to close. -/
  | closes {x} : Toils .ready x none .closing x
  | shuts {p x} (hp : p = .past ∨ p = .finishing) : Toils .closing x (some .shut) p x
  | givesUp {p x} (hp : p = .ready ∨ p = .closing) : Toils p x none .past x
  | leaves {p x} (hp : p ≠ .ended) : Toils p x none .finishing x
  | concludes {p x} (hp : p ≠ .ended) : Toils p x (some .concluded) .ended .idle

/-- What a move from `s` to `t` does, if this is done in it. -/
def Toiling (s t : Session) (l : Option Labor) : Prop :=
  Toils s.position.duty s.progress.transmission l t.position.duty t.progress.transmission

theorem Toiling.same {l : Option Labor} (hl : l = none)
    (position : t.position.duty = s.position.duty)
    (transmission : t.progress.transmission = s.progress.transmission) : Toiling s t l := by
  rw [Toiling, hl, position, transmission]
  exact .rests

theorem nextLabor?_of_transmit {rx : Receiving} {tx : Transmitting}
    (hp : s.position = .active .transmit rx tx) : s.nextLabor? = tx.labor? s := by
  rw [nextLabor?, hp]

theorem Goes.toiling {p : Position} (h : Goes s p) : Toiling s (s.goto p) s.nextLabor? := by
  cases h with
  | stopped hp hv =>
    have hl : s.nextLabor? = none := by rw [nextLabor?, hp]
    rw [Toiling, hl, hp]
    exact .leaves Duty.noConfusion
  | resumed hp hh => exact .same (by rw [nextLabor?, hp]) (by rw [hp]; rfl) rfl
  | unclosable hp hf =>
    have hfault : s.link.closeFault ≠ none := Option.isSome_iff_ne_none.mp hf
    have hl : s.nextLabor? = none := by simp [nextLabor?, hp, hfault]
    rw [Toiling, hl, hp]
    exact .leaves Duty.noConfusion
  | hasRead hp => exact .same (by rw [nextLabor?, hp]) (by rw [hp]; rfl) rfl
  | interrupted hp hr => exact .same (by rw [nextLabor?, hp]) (by rw [hp]; rfl) rfl
  | ranDry hp hr hn he hs => exact .same (by rw [nextLabor?, hp]) (by rw [hp]; rfl) rfl
  | hasAnnounced hp hf hh =>
    have hl : s.nextLabor? = some .completed := by
      simp [nextLabor?_of_transmit hp, Transmitting.labor?, hf, hh]
    rw [Toiling, hl, hp]
    exact .hasAnnounced
  | bothDone hp =>
    rw [Toiling, nextLabor?_of_transmit hp, hp]
    exact .leaves Duty.noConfusion

theorem Sleeps.toiling {p : Position} (h : Sleeps s p) :
    Toiling s (s.suspendOnLink p) s.nextLabor? := by
  cases h with
  | discarding hp hf hh =>
    have hl : s.nextLabor? = none := by simp [nextLabor?, hp, hh]
    exact .same hl (by rw [hp]; rfl) rfl
  | flushing hp hf hh =>
    have hl : s.nextLabor? = none := by
      simp [nextLabor?_of_transmit hp, Transmitting.labor?, hf, hh]
    exact .same hl (by rw [hp]; rfl) rfl
  | announced hp hf hh =>
    have hl : s.nextLabor? = none := by
      simp [nextLabor?_of_transmit hp, Transmitting.labor?, hf, hh]
    exact .same hl (by rw [hp]; rfl) rfl
  | closing hp hf hh =>
    have hl : s.nextLabor? = none := by simp [nextLabor?_of_transmit hp, Transmitting.labor?, hh]
    exact .same hl (by rw [hp]; rfl) rfl

theorem Shuts.toiling {p : Position} (h : Shuts s p) :
    Toiling s (s.wireClosed.goto p) s.nextLabor? := by
  rw [wireClosed_eq]
  cases h with
  | discarding hp hf hh =>
    have hl : s.nextLabor? = some .shut := by simp [nextLabor?, hp, hf, hh]
    rw [Toiling, hl, hp]
    exact .shuts (.inr rfl)
  | closing hp hf hh =>
    have hl : s.nextLabor? = some .shut := by
      simp [nextLabor?_of_transmit hp, Transmitting.labor?, hf, hh]
    rw [Toiling, hl, hp]
    exact .shuts (.inl rfl)

namespace Toiling

/-- A fault that the transmit region meets ends what it was doing; one that is met elsewhere leaves
it. -/
theorem of_fault {e : Ending} (hf : s.fault? = some e)
    (position : t.position = s.position.reporting e ∨ t.position = s.position.dismissed)
    (transmission : t.progress.transmission
      = s.position.transmissionAfterFault s.progress.transmission) :
    Toiling s t s.nextLabor? := by
  rw [Toiling, transmission]
  rcases Sound.position_of_fault hf with hp | ⟨tx, hp⟩ | ⟨rx, tx, hp, -⟩
  · have hl : s.nextLabor? = none := by rw [nextLabor?, hp]
    rw [hl, hp]
    rw [hp] at position
    rcases position with ht | ht
    · rw [ht]
      exact .givesUp (.inl rfl)
    · rw [ht]
      exact .leaves Duty.noConfusion
  · have hl : s.nextLabor? = none := by rw [nextLabor?, hp]
    rw [hl, hp]
    rw [hp] at position
    rcases position with ht | ht <;> rw [ht] <;> exact .rests
  · have hpast : t.position.duty = .past := by
      rw [hp] at position
      rcases position with ht | ht <;> rw [ht] <;> rfl
    have hfault : s.transmitFault? tx = some e := by
      rw [fault?, hp] at hf
      exact hf
    rw [nextLabor?_of_transmit hp, hpast, hp]
    cases tx with
    | writing message =>
      have hsend : s.link.sendFault ≠ none := by
        intro hnone
        simp [transmitFault?, hnone] at hfault
      rw [Transmitting.labor?, if_neg hsend]
      exact .refuses
    | announcing text =>
      have hsend : s.link.sendFault ≠ none := by
        intro hnone
        simp [transmitFault?, hnone] at hfault
      rw [Transmitting.labor?, if_neg hsend]
      exact .mutes
    | flushing =>
      have hflush : s.link.flushFault ≠ none := by
        intro hnone
        simp [transmitFault?, hnone] at hfault
      rw [Transmitting.labor?, if_neg hflush]
      exact .fails
    | announced =>
      have hflush : s.link.flushFault ≠ none := by
        intro hnone
        simp [transmitFault?, hnone] at hfault
      rw [Transmitting.labor?, if_neg hflush]
      exact .breaksOff
    | closing =>
      have hclose : s.link.closeFault ≠ none := by
        intro hnone
        simp [transmitFault?, hnone] at hfault
      have hl : Transmitting.closing.labor? s = none := by simp [Transmitting.labor?, hclose]
      rw [hl]
      exact .givesUp (.inr rfl)
    | _ => cases hfault

theorem of_parting {rx : Receiving} {k : Nat} {outbox : Handoff.Queue String Empty Unit}
    (hp : s.position = .active .transmit rx (.waiting k)) (hl : s.nextLabor? = none) :
    Toiling s ({ s with outbox := outbox }.goto (.active .transmit rx s.parting)) s.nextLabor? := by
  rw [Toiling, hl, hp]
  show Toils .ready _ none s.parting.duty _
  unfold parting
  split
  · split
    · exact .rests
    · exact .closes
  · exact .givesUp (.inl rfl)

theorem of_advances (hs : Sound s) (hr : s.running = true) (ha : Advances s t) :
    Toiling s t s.nextLabor? := by
  cases ha with
  | rests hp =>
    have hcan := hs.runs hr
    rcases hp with hp | hp | hp <;> rw [hp] at hcan <;> exact absurd hcan id
  | goes hg => exact hg.toiling
  | sleeps hg => exact hg.toiling
  | shuts hg => exact hg.toiling
  | prepares hp hv => exact .same (by rw [nextLabor?, hp]) (by rw [hp]; rfl) rfl
  | begins hp hh => exact .same (by rw [nextLabor?, hp]) (by rw [hp]; rfl) rfl
  | abandons hp hh =>
    have hduty : s.position.duty = .ready ∧ s.nextLabor? = none := by
      rcases hp with hp | hp | ⟨hp, -⟩ <;> rw [nextLabor?, hp] <;> exact ⟨rfl, rfl⟩
    rw [Toiling, hduty.1, hduty.2]
    exact .leaves Duty.noConfusion
  | hopes hp ho hh => exact .same (by rw [nextLabor?, hp]) (by rw [hp]; rfl) rfl
  | opens hp ho => exact .same (by rw [nextLabor?, hp]) (by rw [hp]; rfl) rfl
  | @fails e hf link =>
    refine of_fault hf ?_ ?_
    · rw [fail_eq]
      dsimp only
      split
      · exact .inl rfl
      · exact .inr rfl
    · rw [fail_eq]
      rfl
  | @records e hp =>
    have hl : s.nextLabor? = none := by
      unfold Position.reported? at hp
      rw [nextLabor?]
      split at hp <;> simp_all [Transmitting.labor?]
    rw [Toiling, hl]
    unfold Position.reported? at hp
    split at hp
    · next hp' => rw [hp']; exact .leaves Duty.noConfusion
    · next hp' => rw [record, hp']; exact .rests
    · next hp' => rw [record, hp']; exact .rests
    · cases hp
  | turnsAway hp hv =>
    have hl : s.nextLabor? = none := by rw [nextLabor?, hp]
    rw [Toiling, hl, hp]
    exact .closes
  | connects hp hv => exact .same (by rw [nextLabor?, hp]) (by rw [hp]; rfl) rfl
  | hands hp hr hn => exact .same (by rw [nextLabor?, hp]) rfl rfl
  | listens hp hr hn he => exact .same (by rw [nextLabor?, hp]) (by rw [hp]; rfl) rfl
  | asks hp hw =>
    rw [passOn_eq]
    exact .same (nextLabor?_of_transmit hp) (by rw [hp]; rfl) rfl
  | isDenied hp hw => exact absurd hw (hs.wait?_ne_none hp)
  | @takes rx k message outbox hp ho =>
    have hl : s.nextLabor? = some (.took message) := by
      rw [nextLabor?_of_transmit hp, Transmitting.labor?, ho]
    rw [Toiling, hl, hp]
    exact .takes
  | @parts rx k polled outbox hp ho hd =>
    have hl : s.nextLabor? = none := by
      rw [nextLabor?_of_transmit hp, Transmitting.labor?, ho]
      rcases hd with rfl | rfl <;> rfl
    exact of_parting hp hl
  | idles hp ho =>
    have hl : s.nextLabor? = none := by rw [nextLabor?_of_transmit hp, Transmitting.labor?, ho]
    exact .same hl (by rw [hp]; rfl) rfl
  | writes hp hf =>
    rw [Toiling, nextLabor?_of_transmit hp, Transmitting.labor?, if_pos hf, hp]
    exact .starts
  | hasWritten hp hf hh =>
    have hl : s.nextLabor? = some .completed := by
      simp [nextLabor?_of_transmit hp, Transmitting.labor?, hf, hh]
    rw [Toiling, hl, hp]
    exact .writes
  | announces hp hf =>
    rw [Toiling, nextLabor?_of_transmit hp, Transmitting.labor?, if_pos hf, hp]
    exact .announces
  | lingers hp hr => exact .same (nextLabor?_of_transmit hp) (by rw [hp]; rfl) rfl
  | concludes hp =>
    have hl : s.nextLabor? = some .concluded := by rw [nextLabor?, hp]
    rw [Toiling, hl, hp, conclude_eq, settleProgress_eq]
    exact .concludes Duty.noConfusion
  | finishes hp =>
    rw [finish_eq, unhookEngine_eq]
    exact .same (by rw [nextLabor?, hp]) (by rw [hp]; rfl) rfl

/-- What does not panic does not concern the transmit region. -/
theorem of_calm (s : Session) {d : Deed} (hd : d.raised? = none) :
    Toiling s (s.perform d) none := by
  cases d with
  | act a =>
    obtain ⟨message, -, ha⟩ | ⟨message, rfl, -⟩ | ⟨-, ha⟩ := act_cases s a
    · rw [perform, ha, send_eq]
      split <;> exact .rests
    · cases hd
    · obtain ⟨r, hprogress⟩ := ha.progress
      refine .same rfl ?_ ?_
      · exact congrArg Position.duty ha.position
      · show (s.act a).progress.transmission = _
        rw [hprogress]
  | engineStop =>
    rw [perform, onStop_eq]
    refine .same rfl rfl ?_
    rw [progress_onStop]
    rfl
  | heard id => exact .rests

/-- A panic inside the future concludes the session, unless it has concluded. -/
theorem of_panic (hs : Sound s) (cause : Panic) :
    Toiling s (s.tearDown cause)
      (if s.running && !s.position.isEnd then some .concluded else none) := by
  by_cases hr : s.running = true
  · have ht := tearDown_of_running hr cause
    rw [Toiling, ht.position]
    obtain ⟨hprogress, r, b, hp⟩ | ⟨hprogress, hn⟩ := ht.progress
    · rw [hprogress, hp, hr]
      exact .rests
    · have hend : s.position.isEnd = false := by
        have hcan := hs.runs hr
        cases hp : s.position with
        | concluding r b => exact absurd hp (hn r b)
        | «over» =>
          rw [hp] at hcan
          exact absurd hcan id
        | _ => rfl
      have hduty : s.position.duty ≠ .ended := by
        rw [Ne, Position.duty_eq_ended_iff, hend]
        exact Bool.false_ne_true
      rw [hprogress, settleProgress_eq, hr, hend]
      exact .concludes hduty
  · rw [Bool.not_eq_true] at hr
    rw [tearDown_of_not_running hr, hr]
    exact .rests

theorem of_deed (hs : Sound s) (d : Deed) :
    Toiling s (s.perform d)
      (if d.raised?.isSome then if s.running && !s.position.isEnd then some .concluded else none
        else none) := by
  by_cases hd : d.raised? = none
  · rw [hd]
    exact of_calm s hd
  · cases d with
    | act a =>
      obtain ⟨message, rfl⟩ := Act.eq_panic_of_raised hd
      exact of_panic hs (.raised message)
    | engineStop => exact absurd rfl hd
    | heard id => exact absurd rfl hd

/-- **Every move does what its labor says.** -/
theorem of_move (hs : Sound s) (m : Move) : Toiling s (s.move m) (s.labor? m) := by
  by_cases htick : m = .tick
  · subst htick
    cases hd : s.doing with
    | cons d rest =>
      have hl : s.labor? .tick = if d.raised?.isSome then
          if s.running && !s.position.isEnd then some .concluded else none else none := by
        rw [labor?, raised?_of_doing hd, hd]
        rfl
      rw [tick_of_cons hd, hl]
      exact of_deed (s := { s with doing := rest }) (hs.aside (aside_doing s rest)) d
    | nil =>
      cases hr : s.running with
      | true =>
        rw [tick_of_running hd hr, labor?_of_running hd hr]
        exact of_advances hs hr (Session.advances s)
      | false =>
        have hl : s.labor? .tick = none := by simp [labor?, raised?, performed?, hd, hr]
        rw [tick_of_quiet hd hr, hl]
        exact .rests
  · have hm := moves s m
    by_cases hact : ∃ a, m = .act a
    · obtain ⟨a, rfl⟩ := hact
      exact of_deed hs (.act a)
    · have hl : s.labor? m = none := by
        cases m with
        | tick => exact absurd rfl htick
        | act a => exact absurd ⟨a, rfl⟩ hact
        | _ => rfl
      rw [hl]
      generalize s.move m = t at hm
      cases hm with
      | stays => exact .rests
      | acts a => exact absurd ⟨a, rfl⟩ hact
      | does hd => exact absurd rfl htick
      | advances hd hr ha => exact absurd rfl htick
      | hands hp hq => exact .same rfl (by rw [hp]; rfl) rfl
      | refuses hp ha =>
        rw [Toiling, hp]
        exact .leaves Duty.noConfusion
      | resumes hr hp hq => exact .rests
      | misses hr hq hp => exact .rests
      | drops hr hp =>
        have hduty : s.position.duty ≠ .ended := by
          have hrest := hs.rests hr
          rw [Ne, Position.duty_eq_ended_iff]
          cases hpos : s.position with
          | concluding r b => rw [hpos] at hrest; exact absurd hrest id
          | «over» => rw [hpos] at hp; exact absurd hp id
          | _ => exact Bool.false_ne_true
        rw [releaseOperations_eq]
        exact .leaves hduty
      | disowns hp =>
        rw [unhookEngine_eq, Toiling, hp]
        exact .givesUp (.inl rfl)
      | shuts => exact .rests

end Toiling

/-! ### The account -/

/-- What the history says of the duty. -/
def Duty.Stands (h : List Labor) : Duty → Prop
  | ready | closing => Written h ∧ carried? h = none
  | carrying message => Written h ∧ carried? h = some message
  | flushing => ∃ before text, h = before ++ [.started (.message text)] ∧ Written before
  | announced => ∃ before text, h = before ++ [.started (.close text)] ∧ Written before ∧
      carried? before = none
  | past | ended => carried? h = none
  | finishing => True

/-- The close frame has not been handed on. -/
def Duty.isOpen : Duty → Bool
  | ready | carrying _ | flushing => true
  | announced | closing | past | finishing | ended => false

/-- The account that a history of labors gives of the duty and of what is reported. -/
structure Accounts (p : Duty) (x : Transmission) (h : List Labor) : Prop where
  stands : p.Stands h
  truthful : x = .sending ↔ (carried? h).isSome = true
  follows : ∀ before l after, h = before ++ l :: after → l.Follows before
  announced : ∀ text, .started (.close text) ∈ h → p.isOpen = false ∧ carried? h = none
  ended : .concluded ∈ h ↔ p = .ended

namespace Accounts

variable {p q : Duty} {x y : Transmission} {h : List Labor}

theorem start : Accounts .ready .idle [] := by
  refine ⟨⟨written_nil, rfl⟩, by simp [carried?], ?_, nofun, by simp⟩
  intro before l after heq
  simp at heq

theorem follows_concat (ha : Accounts p x h) {l : Labor} (hl : l.Follows h) :
    ∀ before k after, h ++ [l] = before ++ k :: after → k.Follows before := by
  intro before k after heq
  rcases concat_eq_append_cons heq with ⟨rfl, rfl, -⟩ | ⟨rest, hinit, -⟩
  · exact hl
  · exact ha.follows before k rest hinit

/-- Nothing was done. -/
theorem quiet (ha : Accounts p x h) (stands : q.Stands h)
    (closed : p.isOpen = false → q.isOpen = false) (ended : p = .ended ↔ q = .ended) :
    Accounts q x h := by
  refine ⟨stands, ha.truthful, ha.follows, ?_, ?_⟩
  · intro text hmem
    obtain ⟨hopen, hnone⟩ := ha.announced text hmem
    exact ⟨closed hopen, hnone⟩
  · rw [ha.ended]
    exact ended

/-- Something was done that does not conclude the session. -/
theorem concat (ha : Accounts p x h) {l : Labor} (stands : q.Stands (h ++ [l]))
    (truthful : y = .sending ↔ (carried? (h ++ [l])).isSome = true) (follows : l.Follows h)
    (announced : ∀ text, l = .started (.close text) ∨ p.isOpen = false →
      q.isOpen = false ∧ carried? (h ++ [l]) = none)
    (begun : p ≠ .ended) (unended : q ≠ .ended) (other : l ≠ .concluded) :
    Accounts q y (h ++ [l]) := by
  refine ⟨stands, truthful, ha.follows_concat follows, ?_, ?_⟩
  · intro text hmem
    rcases List.mem_append.mp hmem with hold | hlast
    · exact announced text (.inr (ha.announced text hold).1)
    · exact announced text (.inl (List.mem_singleton.mp hlast).symm)
  · refine ⟨?_, fun hq => absurd hq unended⟩
    intro hmem
    rcases List.mem_append.mp hmem with hold | hlast
    · exact absurd (ha.ended.mp hold) begun
    · exact absurd (List.mem_singleton.mp hlast).symm other

theorem next {l : Option Labor} (ha : Accounts p x h) (ht : Toils p x l q y) :
    Accounts q y (h ++ l.toList) := by
  have htrue := ha.truthful
  have hstands := ha.stands
  cases ht with
  | rests =>
    rw [Option.toList_none, List.append_nil]
    exact ha
  | @takes m =>
    obtain ⟨hwritten, hnone⟩ := hstands
    refine ha.concat ⟨hwritten.concat rfl, carried?_concat h _⟩ (by simp [carried?_concat])
      ⟨hwritten, hnone⟩ ?_ nofun nofun nofun
    rintro text (hl | hopen)
    · cases hl
    · cases hopen
  | @starts m =>
    obtain ⟨hwritten, hsome⟩ := hstands
    refine ha.concat ⟨h, m, rfl, hwritten⟩ ?_ ⟨hwritten, hsome⟩ ?_ nofun nofun nofun
    · rw [carried?_concat]
      exact htrue
    · rintro text (hl | hopen)
      · cases hl
      · cases hopen
  | @refuses m =>
    obtain ⟨hwritten, hsome⟩ := hstands
    refine ha.concat (carried?_concat h _) (by simp [carried?_concat])
      ⟨hwritten, hsome⟩ ?_ nofun nofun nofun
    intro text _
    exact ⟨rfl, carried?_concat h _⟩
  | writes =>
    obtain ⟨before, text, rfl, hwritten⟩ := hstands
    refine ha.concat ⟨hwritten.complete _, carried?_concat _ _⟩ ?_ trivial ?_ nofun nofun nofun
    · rw [carried?_concat]
      simp
    · rintro text (hl | hopen)
      · cases hl
      · cases hopen
  | fails =>
    refine ha.concat (carried?_concat h _) (by simp [carried?_concat]) trivial ?_ nofun nofun nofun
    intro text _
    exact ⟨rfl, carried?_concat h _⟩
  | @announces text =>
    obtain ⟨hwritten, hnone⟩ := hstands
    have hheld : carried? (h ++ [.started (.close text)]) = none := by rw [carried?_concat, hnone]
    refine ha.concat ⟨h, text, rfl, hwritten, hnone⟩ ?_
      ⟨hwritten, hnone⟩ ?_ nofun nofun nofun
    · rw [hheld, ← hnone]
      exact htrue
    · intro _ _
      exact ⟨rfl, hheld⟩
  | @mutes text =>
    obtain ⟨hwritten, hnone⟩ := hstands
    refine ha.concat (carried?_concat h _) ?_ ⟨hwritten, hnone⟩ ?_ nofun nofun nofun
    · rw [htrue, hnone, carried?_concat]
    · intro _ _
      exact ⟨rfl, carried?_concat h _⟩
  | hasAnnounced =>
    obtain ⟨before, text, rfl, hwritten, hnone⟩ := hstands
    refine ha.concat ⟨hwritten.complete _, carried?_concat _ _⟩ ?_ trivial ?_ nofun nofun nofun
    · rw [htrue, carried?_concat, carried?_concat, hnone]
    · intro _ _
      exact ⟨rfl, carried?_concat _ _⟩
  | breaksOff =>
    obtain ⟨before, text, rfl, hwritten, hnone⟩ := hstands
    refine ha.concat (carried?_concat _ _) ?_ trivial ?_ nofun nofun nofun
    · rw [htrue, carried?_concat, carried?_concat, hnone]
    · intro _ _
      exact ⟨rfl, carried?_concat _ _⟩
  | closes =>
    rw [Option.toList_none, List.append_nil]
    exact ha.quiet hstands nofun (by simp)
  | shuts hp =>
    obtain ⟨hwritten, hnone⟩ := hstands
    have hheld : carried? (h ++ [.shut]) = none := by rw [carried?_concat, hnone]
    refine ha.concat ?_ ?_ ⟨hwritten, hnone⟩ ?_ nofun ?_ nofun
    · rcases hp with rfl | rfl
      · exact hheld
      · trivial
    · rw [htrue, hheld, hnone]
    · intro _ _
      rcases hp with rfl | rfl <;> exact ⟨rfl, hheld⟩
    · rcases hp with rfl | rfl <;> exact nofun
  | givesUp hp =>
    rw [Option.toList_none, List.append_nil]
    rcases hp with rfl | rfl
    · exact ha.quiet hstands.2 nofun (by simp)
    · exact ha.quiet hstands.2 (fun _ => rfl) (by simp)
  | leaves hp =>
    rw [Option.toList_none, List.append_nil]
    exact ha.quiet trivial (fun _ => rfl) (by simp [hp])
  | concludes hp =>
    refine ⟨carried?_concat h _, by simp [carried?_concat], ha.follows_concat trivial, ?_,
      by simp⟩
    intro _ _
    exact ⟨rfl, carried?_concat h _⟩

end Accounts

/-! ### Along every run -/

theorem labors_concat (s : Session) (ms : List Move) (m : Move) :
    s.labors (ms ++ [m]) = s.labors ms ++ ((s.after ms).labor? m).toList :=
  seen_concat move labor? s ms m

theorem accounts_after (o : Origin) (ms : List Move) :
    Accounts (o.session.after ms).position.duty (o.session.after ms).progress.transmission
      (o.session.labors ms) := by
  refine after_induction (P := fun ms t =>
    Accounts t.position.duty t.progress.transmission (o.session.labors ms)) ?_ ?_ ms
  · exact .start
  · intro ms m ha
    rw [labors_concat]
    exact ha.next (Toiling.of_move (sound_after o ms) m)

/-! ### What the history contains -/

theorem frame?_nextLabor? (s : Session) : s.nextLabor?.bind Labor.frame? = s.position.frame? := by
  cases hp : s.position with
  | active turn rx tx =>
    cases turn with
    | receive => rw [nextLabor?, hp]; rfl
    | transmit =>
      rw [nextLabor?_of_transmit hp]
      cases tx with
      | waiting t => simp only [Transmitting.labor?]; split <;> rfl
      | writing message => simp only [Transmitting.labor?]; split <;> rfl
      | announcing text => simp only [Transmitting.labor?]; split <;> rfl
      | flushing | announced =>
        simp only [Transmitting.labor?]
        split
        · split <;> rfl
        · rfl
      | closing => simp only [Transmitting.labor?]; split <;> rfl
      | _ => rfl
  | discarding => simp only [nextLabor?, hp]; split <;> rfl
  | _ => rw [nextLabor?, hp]; rfl

theorem wire?_nextLabor? (s : Session) :
    s.nextLabor?.bind Labor.wire? = s.position.wire? s.link := by
  cases hp : s.position with
  | active turn rx tx =>
    cases turn with
    | receive => rw [nextLabor?, hp]; rfl
    | transmit =>
      rw [nextLabor?_of_transmit hp]
      cases tx with
      | waiting t => simp only [Transmitting.labor?]; split <;> rfl
      | writing message => simp only [Transmitting.labor?, Position.wire?]; split <;> rfl
      | announcing text => simp only [Transmitting.labor?, Position.wire?]; split <;> rfl
      | flushing | announced =>
        simp only [Transmitting.labor?, Position.wire?]
        by_cases hf : s.link.flushFault = none
        · cases hh : s.link.held <;> simp [hf, Labor.wire?]
        · simp [hf, Labor.wire?]
      | closing => simp only [Transmitting.labor?, Position.wire?]; split <;> rfl
      | _ => rfl
  | discarding => simp only [nextLabor?, hp, Position.wire?]; split <;> rfl
  | _ => rw [nextLabor?, hp]; rfl

/-- The frames that are handed to the sink, and what the sink does, are parts of the history. -/
theorem handed_eq (s : Session) (ms : List Move) :
    s.handed ms = (s.labors ms).filterMap Labor.frame? ∧
      s.wires ms = (s.labors ms).filterMap Labor.wire? := by
  have hlook : ∀ (t : Session) (m : Move), t.frame? m = (t.labor? m).bind Labor.frame? ∧
      t.wire? m = (t.labor? m).bind Labor.wire? := by
    intro t m
    by_cases hgo : m = .tick ∧ t.doing = [] ∧ t.running = true
    · obtain ⟨rfl, hd, hr⟩ := hgo
      rw [labor?_of_running hd hr, frame?_nextLabor?, wire?_nextLabor?, frame?, wire?, hd, hr]
      exact ⟨rfl, rfl⟩
    · have hnone : t.frame? m = none ∧ t.wire? m = none := by
        cases m with
        | tick =>
          have hidle : ¬ (t.doing.isEmpty && t.running) = true := by
            rw [Bool.and_eq_true, List.isEmpty_iff]
            exact fun h => hgo ⟨rfl, h⟩
          exact ⟨if_neg hidle, if_neg hidle⟩
        | _ => exact ⟨rfl, rfl⟩
      rw [hnone.1, hnone.2]
      rcases labor?_of_not_running hgo with hl | hl <;> rw [hl] <;> exact ⟨rfl, rfl⟩
  rw [labors, filterMap_seen, filterMap_seen, handed, wires]
  refine ⟨?_, ?_⟩
  · exact congrArg (seen move · s ms) (funext fun t => funext fun m => (hlook t m).1)
  · exact congrArg (seen move · s ms) (funext fun t => funext fun m => (hlook t m).2)

/-- What is reported of the transmission is true, and writes do not overlap.  The history `h` is all
that bears on writing. -/
structure IsTruthful (s : Session) (h : List Labor) : Prop where
  /-- A frame is handed to the sink, and the sink is closed, only when all earlier frames are
  written.  A message is handed on by itself, as the one that was taken last. -/
  follows : ∀ before l after, h = before ++ l :: after → l.Follows before
  /-- Closing the sink is not even attempted earlier. -/
  closes : s.position.duty = .closing → Written h
  sending : s.progress.transmission = .sending ↔ (carried? h).isSome = true
  /-- From the close frame on nothing is reported as being sent. -/
  announced : ∀ text, .started (.close text) ∈ h → s.progress.transmission = .idle
  concluded : .concluded ∈ h ↔ s.position.isEnd = true
  ended : s.position.isEnd = true → s.progress.transmission = .idle

theorem Accounts.isTruthful {h : List Labor}
    (ha : Accounts s.position.duty s.progress.transmission h) : IsTruthful s h := by
  have idle : carried? h = none → s.progress.transmission = .idle := by
    intro hnone
    have hnot : s.progress.transmission ≠ .sending := by
      intro hsending
      have hsome := ha.truthful.mp hsending
      rw [hnone] at hsome
      cases hsome
    cases hx : s.progress.transmission with
    | idle => rfl
    | sending => exact absurd hx hnot
  refine ⟨ha.follows, ?_, ha.truthful, ?_, ?_, ?_⟩
  · intro hduty
    have hstands := ha.stands
    rw [hduty] at hstands
    exact hstands.1
  · intro text hmem
    exact idle (ha.announced text hmem).2
  · rw [ha.ended, Position.duty_eq_ended_iff]
  · intro hend
    have hstands := ha.stands
    rw [(Position.duty_eq_ended_iff _).mpr hend] at hstands
    exact idle hstands

/--
**One write at a time, truthfully reported.**

In every run and at every moment: a frame is handed to the sink, and the sink is closed, only when
every earlier frame is written.  The session reports that it is sending if and only if a message was
taken out of the outbox and was neither written nor given up since, and the session has not
concluded.  While the close frame is written, and once the session is over, it reports that it is
idle.
-/
theorem transmission_of_run (o : Origin) (ms : List Move) :
    o.session.handed ms = (o.session.labors ms).filterMap Labor.frame? ∧
      o.session.wires ms = (o.session.labors ms).filterMap Labor.wire? ∧
      IsTruthful (o.session.after ms) (o.session.labors ms) := by
  obtain ⟨hhanded, hwires⟩ := handed_eq o.session ms
  exact ⟨hhanded, hwires, (accounts_after o ms).isTruthful⟩

/-- Two messages are sent, the write of the first is held up, and the future is dropped. -/
example :
    let ms : List Move := [.serve, .poll] ++ .replicate 3 .tick ++
      [.act (.send "a"), .act (.send "b"), .act (.link .hold)] ++ .replicate 6 .tick
    ({} : Origin).session.labors (ms ++ [.drop, .tick])
      = [.took "a", .started (.message "a"), .concluded] ∧
    (({} : Origin).session.after ms).progress.transmission = .sending := by
  decide

end Dialogue.Session
