/-
What happens at the sink.

The sink of a connection takes a frame, writes it, and at last is closed; each of these may have to
wait or may fail.  `wires` is the history of what it has done.  The journal holds less, for it does
not say when a write completed.  What it does say agrees: `atSink_after`.
-/
import Dialogue.Proofs.Session.Writing

namespace Dialogue.Session

/-! ### Histories -/

/-- Something that the sink does for the session. -/
inductive Wire
  /-- It takes a frame. -/
  | started (frame : Frame)
  /-- The frame that it took is written. -/
  | completed
  /-- It is closed. -/
  | shut
deriving DecidableEq, Repr

/-- What the sink does in the next step of the future. -/
def Position.wire? (link : Link) : Position → Option Wire
  | active .transmit _ (.writing message) =>
    if link.sendFault = none then some (.started (.message message)) else none
  | active .transmit _ (.announcing text) =>
    if link.sendFault = none then some (.started (.close text)) else none
  | active .transmit _ .flushing | active .transmit _ .announced =>
    if link.flushFault = none ∧ link.held = false then some .completed else none
  | active .transmit _ .closing | discarding =>
    if link.closeFault = none ∧ link.closeHeld = false then some .shut else none
  | _ => none

/-- What the sink does in a move. -/
def wire? (s : Session) : Move → Option Wire
  | .tick => if s.doing.isEmpty && s.running then s.position.wire? s.link else none
  | _ => none

/-- What the sink does, in order. -/
def wires (s : Session) (ms : List Move) : List Wire :=
  seen move wire? s ms

/-- What the journal says of the sink. -/
def Event.atSink? : Event → Option Event
  | write text => some (.write text)
  | wireClosed => some .wireClosed
  | _ => none

/-- What is written into the journal. -/
def Wire.event? : Wire → Option Event
  | started frame => some (.write frame.text)
  | completed => none
  | shut => some .wireClosed

/-- What the journal says of the sink, in order. -/
def atSink (s : Session) : List Event :=
  s.journal.filterMap Event.atSink?

/-! ### Every step -/

variable {s t : Session}

theorem atSink_of_log (h : t.log = s.log) : t.atSink = s.atSink :=
  filterMap_journal_of_log Event.atSink? h

theorem atSink_of_cons {e : Event} (h : t.log = e :: s.log) :
    t.atSink = s.atSink ++ e.atSink?.toList :=
  filterMap_journal_of_cons Event.atSink? h

theorem atSink_of_silent {e : Event} (h : t.log = e :: s.log) (he : e.atSink? = none) :
    t.atSink = s.atSink := by
  rw [atSink_of_cons h, he]
  exact List.append_nil _

/-- A step that writes into the journal what the sink does. -/
def Journals (s t : Session) (w : Option Wire) : Prop :=
  t.atSink = s.atSink ++ (w.bind Wire.event?).toList

theorem Journals.silent {w : Option Wire} (hw : w.bind Wire.event? = none)
    (h : t.atSink = s.atSink) : Journals s t w := by
  rw [Journals, hw, h]
  exact (List.append_nil _).symm

theorem event?_of_goes {p : Position} (h : Goes s p) :
    (s.position.wire? s.link).bind Wire.event? = none := by
  cases h with
  | unclosable hp hf =>
    have hfault : s.link.closeFault ≠ none := Option.isSome_iff_ne_none.mp hf
    simp [Position.wire?, hp, hfault]
  | _ => simp_all [Position.wire?, Wire.event?]

theorem wire?_of_sleeps {p : Position} (h : Sleeps s p) : s.position.wire? s.link = none := by
  cases h <;> simp_all [Position.wire?]

theorem wire?_of_shuts {p : Position} (h : Shuts s p) :
    s.position.wire? s.link = some .shut := by
  cases h <;> simp_all [Position.wire?]

/-- What fails is not done. -/
theorem wire?_of_fault {e : Ending} (h : s.fault? = some e) : s.position.wire? s.link = none := by
  rcases Sound.position_of_fault h with hp | ⟨tx, hp⟩ | ⟨rx, tx, hp, -⟩
  · rw [hp]
    rfl
  · rw [hp]
    rfl
  · rw [fault?, hp] at h
    rw [hp]
    cases tx <;> simp_all [transmitFault?, Position.wire?] <;> grind

namespace Journals

theorem of_advances (hs : Sound s) (hr : s.running = true) (ha : Advances s t) :
    Journals s t (s.position.wire? s.link) := by
  have nothing : s.position.wire? s.link = none → t.atSink = s.atSink →
      Journals s t (s.position.wire? s.link) := by
    intro hwire
    rw [hwire]
    exact silent rfl
  cases ha with
  | rests hp =>
    have hcan := hs.runs hr
    rcases hp with hp | hp | hp <;> rw [hp] at hcan <;> exact absurd hcan id
  | goes hg => exact silent (event?_of_goes hg) rfl
  | sleeps hg => exact nothing (wire?_of_sleeps hg) rfl
  | shuts hg =>
    rw [wire?_of_shuts hg, wireClosed_eq]
    exact atSink_of_cons (e := .wireClosed) rfl
  | prepares hp hv => exact nothing (by rw [hp]; rfl) rfl
  | begins hp hh => exact nothing (by rw [hp]; rfl) (atSink_of_silent rfl rfl)
  | abandons hp hh =>
    refine nothing ?_ (atSink_of_silent rfl rfl)
    rcases hp with hp | hp | ⟨hp, -⟩ <;> rw [hp] <;> rfl
  | hopes hp ho hh => exact nothing (by rw [hp]; rfl) rfl
  | opens hp ho => exact nothing (by rw [hp]; rfl) rfl
  | @fails e hf link =>
    refine nothing (wire?_of_fault hf) ?_
    by_cases hv : s.progress.verdict = none
    · refine atSink_of_silent (e := .error e) ?_ rfl
      rw [fail_eq]
      exact if_pos hv
    · refine atSink_of_log ?_
      rw [fail_eq]
      exact if_neg hv
  | records hp =>
    refine nothing ?_ rfl
    unfold Position.reported? at hp
    split at hp <;> simp_all [Position.wire?]
  | turnsAway hp hv => exact nothing (by rw [hp]; rfl) rfl
  | connects hp hv => exact nothing (by rw [hp]; rfl) (atSink_of_silent rfl rfl)
  | hands hp hr hn => exact nothing (by rw [hp]; rfl) (atSink_of_silent rfl rfl)
  | listens hp hr hn he => exact nothing (by rw [hp]; rfl) rfl
  | asks hp hw =>
    rw [passOn_eq] at nothing ⊢
    exact nothing (by rw [hp]; rfl) rfl
  | isDenied hp hw => exact absurd hw (hs.wait?_ne_none hp)
  | takes hp ho => exact nothing (by rw [hp]; rfl) rfl
  | parts hp ho hd => exact nothing (by rw [hp]; rfl) rfl
  | idles hp ho => exact nothing (by rw [hp]; rfl) rfl
  | @writes _ message hp hl =>
    have hwire : s.position.wire? s.link = some (.started (.message message)) := by
      simp [Position.wire?, hp, hl]
    rw [hwire]
    exact atSink_of_cons (e := .write message) rfl
  | hasWritten hp hl hh =>
    have hwire : s.position.wire? s.link = some .completed := by simp [Position.wire?, hp, hl, hh]
    rw [hwire]
    exact silent rfl rfl
  | @announces _ text hp hl =>
    have hwire : s.position.wire? s.link = some (.started (.close text)) := by
      simp [Position.wire?, hp, hl]
    rw [hwire]
    exact atSink_of_cons (e := .write text) rfl
  | lingers hp hl => exact nothing (by rw [hp]; rfl) rfl
  | concludes hp =>
    refine nothing (by rw [hp]; rfl) (atSink_of_silent (e := .closed s.reason) ?_ rfl)
    rw [conclude_eq]
  | finishes hp =>
    rw [finish_eq, unhookEngine_eq] at nothing ⊢
    exact nothing (by rw [hp]; rfl) rfl

theorem of_perform (s : Session) (d : Deed) : Journals s (s.perform d) none := by
  refine silent rfl ?_
  cases d with
  | act a =>
    obtain ⟨message, -, ha⟩ | ⟨message, -, ha⟩ | ⟨-, ha⟩ := act_cases s a
    · rw [perform, ha, send_eq]
      split <;> rfl
    · rw [perform, ha]
      cases hr : s.running with
      | false =>
        rw [tearDown_of_not_running hr]
        rfl
      | true =>
        rcases (tearDown_of_running hr (.raised message)).log with hl | hl
        · exact atSink_of_log hl
        · exact atSink_of_silent hl rfl
    · rcases ha.log with hl | ⟨stage, x, b, hl⟩
      · exact atSink_of_log hl
      · exact atSink_of_silent hl rfl
  | engineStop =>
    rw [perform, onStop_eq]
    rfl
  | heard id => rfl

theorem of_move (hs : Sound s) (m : Move) : Journals s (s.move m) (s.wire? m) := by
  by_cases htick : m = .tick
  · subst htick
    cases hd : s.doing with
    | cons d rest =>
      rw [tick_of_cons hd, wire?, hd]
      exact of_perform { s with doing := rest } d
    | nil =>
      cases hr : s.running with
      | true =>
        rw [tick_of_running hd hr, wire?, hd, hr]
        exact of_advances hs hr (Session.advances s)
      | false =>
        rw [tick_of_quiet hd hr, wire?, hd, hr]
        exact silent rfl rfl
  · have hwire : s.wire? m = none := by
      cases m with
      | tick => exact absurd rfl htick
      | _ => rfl
    rw [hwire]
    have hm := moves s m
    generalize s.move m = t at hm
    cases hm with
    | acts a => exact of_perform s (.act a)
    | does hd => exact absurd rfl htick
    | advances hd hr ha => exact absurd rfl htick
    | drops hr hp =>
      rw [releaseOperations_eq]
      refine silent rfl ?_
      show Session.atSink { s with log := s.lastWords ++ s.log } = _
      unfold lastWords
      split <;> first | rfl | exact atSink_of_silent rfl rfl
    | disowns hp =>
      rw [unhookEngine_eq]
      exact silent rfl rfl
    | _ => exact silent rfl rfl

end Journals

theorem wires_concat (s : Session) (ms : List Move) (m : Move) :
    s.wires (ms ++ [m]) = s.wires ms ++ ((s.after ms).wire? m).toList :=
  seen_concat move wire? s ms m

/-- **In every run the journal says of the sink what the sink does.** -/
theorem atSink_after (hs : Sound s) (ms : List Move) :
    (s.after ms).atSink = s.atSink ++ (s.wires ms).filterMap Wire.event? := by
  have hrun := after_induction
    (P := fun ms t => Sound t ∧ t.atSink = s.atSink ++ (s.wires ms).filterMap Wire.event?)
    (s := s) ?_ ?_ ms
  · exact hrun.2
  · exact ⟨hs, (List.append_nil _).symm⟩
  · rintro ms m ⟨hsound, hsink⟩
    refine ⟨hsound.move m, ?_⟩
    have hmove := Journals.of_move hsound m
    rw [Journals] at hmove
    rw [hmove, hsink, wires_concat, List.filterMap_append, List.append_assoc]
    cases hw : (s.after ms).wire? m with
    | none => rfl
    | some w => cases he : w.event? <;> simp [he]

end Dialogue.Session
