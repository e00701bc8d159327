/-
What a handler is told.

A handler hears of a connection, of messages, of at most one error and of the end, in this order and
of the end once.  The calls are made in five places, so no single place shows it.  `Report` is what
a handler is told in all of a session.  As long as a session runs it has told a part of some report,
its *prelude*, and `Told` says which: no greeting before the session is active, and from then on
one; the error if the verdict is a failure; the end if the position says so.

The failure itself is written down late, when the handler has returned from hearing of it.  Until
then the position keeps it, and `Told` says that one of the two always has it.  This is why the end
is reported with the very failure that was reported before.
-/
import Dialogue.Proofs.Session.Settling

namespace Dialogue.Session

/-! ### Reports -/

/-- The handler was called. -/
def Event.isCallback : Event → Bool
  | connected _ | message _ | error _ | closed _ => true
  | _ => false

/-- The calls of the handler so far, in order. -/
def callbacks (s : Session) : List Event :=
  s.journal.filter Event.isCallback

/-- A note is no call of the handler. -/
theorem callbacks_eq_filter (s : Session) : s.callbacks = s.chronicle.filter Event.isCallback := by
  rw [callbacks, chronicle, List.filter_filter]
  refine List.filter_congr fun e _ => ?_
  cases e <;> rfl

/-- What a handler is told in all of a session. -/
structure Report where
  /-- A name and messages, if the session became active. -/
  greeting : Option (String × List String) := none
  /-- The failure that ended the session, unless it was cancelled. -/
  fault : Option Ending := none

namespace Report

/-- How the session ended. -/
def reason (r : Report) : Ending :=
  r.fault.getD .cancelled

/-- What is told of connection and messages. -/
def welcome (r : Report) : List Event :=
  match r.greeting with
  | none => []
  | some (name, texts) => .connected name :: texts.map .message

/-- What is told before the end. -/
def prelude (r : Report) : List Event :=
  r.welcome ++ r.fault.toList.map .error

/-- All that is told. -/
def events (r : Report) : List Event :=
  r.prelude ++ [.closed r.reason]

theorem prelude_connected {r : Report} (hg : r.greeting = none) (hf : r.fault = none)
    (name : String) :
    ({ r with greeting := some (name, []) } : Report).prelude
      = r.prelude ++ [.connected name] := by
  simp [prelude, welcome, hg, hf]

theorem prelude_message {r : Report} {name : String} {texts : List String}
    (hg : r.greeting = some (name, texts)) (hf : r.fault = none) (text : String) :
    ({ r with greeting := some (name, texts ++ [text]) } : Report).prelude
      = r.prelude ++ [.message text] := by
  simp [prelude, welcome, hg, hf]

theorem prelude_error {r : Report} (hf : r.fault = none) (e : Ending) :
    ({ r with fault := some e } : Report).prelude = r.prelude ++ [.error e] := by
  simp [prelude, welcome, hf]

theorem closed_not_mem_prelude (r : Report) (e : Ending) : .closed e ∉ r.prelude := by
  unfold prelude welcome
  cases r.greeting <;> cases r.fault <;> simp

end Report

theorem callbacks_of_log {s t : Session} (h : t.log = s.log) : t.callbacks = s.callbacks := by
  rw [callbacks, callbacks, journal, journal, h]

theorem callbacks_of_cons {s t : Session} {e : Event} (h : t.log = e :: s.log) :
    t.callbacks = s.callbacks ++ [e].filter Event.isCallback := by
  rw [callbacks, callbacks, journal, journal, h, List.reverse_cons, List.filter_append]

/-- Whatever else is written is not a call of the handler. -/
theorem callbacks_of_silent {s t : Session} {e : Event} (h : t.log = e :: s.log)
    (he : e.isCallback = false) : t.callbacks = s.callbacks := by
  rw [callbacks_of_cons h, List.filter_cons_of_neg (by simp [he]), List.filter_nil,
    List.append_nil]

theorem callbacks_of_called {s t : Session} {e : Event} (h : t.log = e :: s.log)
    (he : e.isCallback = true) : t.callbacks = s.callbacks ++ [e] := by
  rw [callbacks_of_cons h, List.filter_cons_of_pos he, List.filter_nil]

/-! ### How much of a report was told -/

/-- The session has not become active. -/
def Position.isEarly : Position → Bool
  | engine | neverRun | spawned | preparing | handshaking | awaiting | opened => true
  | refusing _ | discarding | active _ _ _ | finishing _ | concluding _ _ | .over => false

/-- The two regions run. -/
def Position.isUp : Position → Bool
  | active _ _ _ => true
  | engine | neverRun | spawned | preparing | handshaking | awaiting | opened | refusing _
  | discarding | finishing _ | concluding _ _ | .over => false

/-- The end was reported to the handler. -/
def Position.isTold : Position → Bool
  | concluding _ _ | .over => true
  | engine | neverRun | spawned | preparing | handshaking | awaiting | opened | refusing _
  | discarding | active _ _ _ | finishing _ => false

/-- How much of a report the handler was told. -/
structure Told (s : Session) (r : Report) : Prop where
  callbacks : s.callbacks = r.prelude ++ if s.position.isTold then [.closed r.reason] else []
  early : s.position.isEarly = true → r.greeting = none
  up : s.position.isUp = true → r.greeting ≠ none
  failed : s.progress.verdict = some .failed ↔ r.fault ≠ none
  proper : r.fault ≠ some .cancelled
  /-- Between report and record the position keeps the failure. -/
  reported : ∀ e, s.position.reported? = some e → r.fault = some e
  recorded : s.position.reported? = none → s.position.isTold = false → s.failure = r.fault
  genuine : ∀ e, s.failure = some e → r.fault = some e
  concluding : ∀ e resolves, s.position = .concluding e resolves → e = r.reason
  result : ∀ e, s.result = some e → s.position = .over ∧ e = r.reason

/-- From one position to the next without a word to the handler. -/
structure Position.Onward (p q : Position) : Prop where
  early : q.isEarly = true → p.isEarly = true
  up : q.isUp = true → p.isUp = true
  untold : p.isTold = false ∧ q.isTold = false
  unreported : p.reported? = none ∧ q.reported? = none

namespace Told

variable {s t : Session} {r : Report}

theorem of_same (h : Told s r) (callbacks : t.callbacks = s.callbacks)
    (verdict : t.progress.verdict = some .failed ↔ s.progress.verdict = some .failed)
    (failure : t.failure = s.failure) (position : t.position = s.position)
    (result : t.result = s.result) : Told t r := by
  constructor
  · rw [callbacks, position]
    exact h.callbacks
  · rw [position]
    exact h.early
  · rw [position]
    exact h.up
  · rw [verdict]
    exact h.failed
  · exact h.proper
  · rw [position]
    exact h.reported
  · rw [position, failure]
    exact h.recorded
  · rw [failure]
    exact h.genuine
  · rw [position]
    exact h.concluding
  · rw [position, result]
    exact h.result

theorem fault_eq_none (h : Told s r) (hv : s.progress.verdict ≠ some .failed) :
    r.fault = none := by
  by_contra hn
  exact hv (h.failed.mpr hn)

/-- What was told is the beginning of the report. -/
theorem callbacks_prefix (h : Told s r) : s.callbacks <+: r.events := by
  rw [h.callbacks, Report.events]
  split
  · exact List.prefix_rfl
  · rw [List.append_nil]
    exact List.prefix_append _ _

/-- No result before the end. -/
theorem result_eq_none (h : Told s r) (hp : s.position.isTold = false) : s.result = none := by
  cases hres : s.result with
  | none => rfl
  | some e =>
    rw [(h.result e hres).1] at hp
    cases hp

theorem of_onward (h : Told s r) (hp : s.position.Onward t.position)
    (callbacks : t.callbacks = s.callbacks) (verdict : t.progress.verdict = s.progress.verdict)
    (failure : t.failure = s.failure) (result : t.result = s.result) : Told t r := by
  have htold := hp.untold
  constructor
  · rw [callbacks, h.callbacks, htold.1, htold.2]
  · exact fun ht => h.early (hp.early ht)
  · exact fun ht => h.up (hp.up ht)
  · rw [verdict]
    exact h.failed
  · exact h.proper
  · intro e he
    rw [hp.unreported.2] at he
    cases he
  · intro _ _
    rw [failure]
    exact h.recorded hp.unreported.1 htold.1
  · rw [failure]
    exact h.genuine
  · intro e b he
    have hq := htold.2
    rw [he] at hq
    cases hq
  · intro e he
    rw [result, h.result_eq_none htold.1] at he
    cases he

theorem aside (h : Told s r) (ha : Aside s t) : Told t r := by
  obtain ⟨reason, hreason⟩ := ha.progress
  refine h.of_same ?_ (by rw [hreason]) ha.failure ha.position ha.result
  obtain hl | ⟨stage, x, b, hl⟩ := ha.log
  · exact callbacks_of_log hl
  · exact callbacks_of_silent hl rfl

end Told

/-! ### Positions on the way -/

theorem reported?_active {turn : Turn} {rx : Receiving} {tx : Transmitting}
    (hrx : rx.isFailing = false) (htx : tx.isFailing = false) :
    (Position.active turn rx tx).reported? = none := by
  cases turn <;> cases rx <;> cases tx <;> simp_all [Position.reported?]

/-- A failure of the receive region is recorded before the transmit region takes its turn. -/
theorem Sound.isFailing_receiving {s : Session} {rx : Receiving} {tx : Transmitting} (h : Sound s)
    (hp : s.position = .active .transmit rx tx) : rx.isFailing = false := by
  have hf := h.fits
  rw [hp] at hf
  cases hrx : rx.isFailing with
  | false => rfl
  | true => exact absurd (hf.2.2.1 hrx).1 (by simp)

theorem Sound.isFailing_transmitting {s : Session} {rx : Receiving} {tx : Transmitting}
    (h : Sound s) (hp : s.position = .active .receive rx tx) : tx.isFailing = false := by
  have hf := h.fits
  rw [hp] at hf
  cases htx : tx.isFailing with
  | false => rfl
  | true => exact absurd (hf.2.2.2 htx).1 (by simp)

theorem Sound.reported?_of_rests {s : Session} (h : Sound s) (hr : s.running = false) :
    s.position.reported? = none := by
  have hrest := h.rests hr
  cases hp : s.position with
  | active turn rx tx =>
    rw [hp] at hrest
    exact reported?_active hrest.2.1 hrest.2.2
  | refusing e => simp [hp, Position.CanRest] at hrest
  | _ => rfl

/-- From one place of the two regions to another where no failure was reported. -/
theorem onward_active {turn turn' : Turn} {rx rx' : Receiving} {tx tx' : Transmitting}
    (hrx : rx.isFailing = false) (htx : tx.isFailing = false) (hrx' : rx'.isFailing = false)
    (htx' : tx'.isFailing = false) :
    (Position.active turn rx tx).Onward (.active turn' rx' tx') :=
  ⟨fun h => h, fun h => h, ⟨rfl, rfl⟩, reported?_active hrx htx, reported?_active hrx' htx'⟩

/-- From a place where no failure was reported to the conclusion. -/
theorem onward_finishing {p : Position} {resolves : Bool} (ht : p.isTold = false)
    (hr : p.reported? = none) : p.Onward (.finishing resolves) :=
  { early := nofun
    up := nofun
    untold := ⟨ht, rfl⟩
    unreported := ⟨hr, rfl⟩ }

theorem Goes.onward {s : Session} {p : Position} (hs : Sound s) (h : Goes s p) :
    s.position.Onward p := by
  cases h with
  | stopped hp hv => rw [hp]; exact onward_finishing rfl rfl
  | resumed hp hh => rw [hp]; exact ⟨fun _ => rfl, nofun, ⟨rfl, rfl⟩, rfl, rfl⟩
  | unclosable hp hf => rw [hp]; exact onward_finishing rfl rfl
  | hasRead hp =>
    rw [hp]
    have htx := hs.isFailing_transmitting hp
    exact onward_active rfl htx rfl htx
  | interrupted hp hr =>
    rw [hp]
    have htx := hs.isFailing_transmitting hp
    exact onward_active rfl htx rfl htx
  | ranDry hp hr hn he hst =>
    rw [hp]
    have htx := hs.isFailing_transmitting hp
    exact onward_active rfl htx rfl htx
  | hasAnnounced hp hf hh =>
    rw [hp]
    have hrx := hs.isFailing_receiving hp
    exact onward_active hrx rfl hrx rfl
  | bothDone hp => rw [hp]; exact onward_finishing rfl rfl

theorem Sleeps.onward {s : Session} {p : Position} (hs : Sound s) (h : Sleeps s p) :
    s.position.Onward p := by
  cases h with
  | discarding hp hf hh => rw [hp]; exact ⟨nofun, nofun, ⟨rfl, rfl⟩, rfl, rfl⟩
  | flushing hp hf hh =>
    rw [hp]
    have hrx := hs.isFailing_receiving hp
    exact onward_active hrx rfl hrx rfl
  | announced hp hf hh =>
    rw [hp]
    have hrx := hs.isFailing_receiving hp
    exact onward_active hrx rfl hrx rfl
  | closing hp hf hh =>
    rw [hp]
    have hrx := hs.isFailing_receiving hp
    exact onward_active hrx rfl hrx rfl

theorem Shuts.onward {s : Session} {p : Position} (hs : Sound s) (h : Shuts s p) :
    s.position.Onward p := by
  cases h with
  | discarding hp hf hh => rw [hp]; exact onward_finishing rfl rfl
  | closing hp hf hh =>
    rw [hp]
    have hrx := hs.isFailing_receiving hp
    exact onward_active hrx rfl hrx rfl

/-! ### The handler is called in four places -/

namespace Told

variable {s t : Session} {r : Report}

/-- A failure is observed in places where none was reported. -/
theorem onward_dismissed {e : Ending} (hs : Sound s) (hf : s.fault? = some e) :
    s.position.Onward s.position.dismissed := by
  obtain hp | ⟨tx, hp⟩ | ⟨rx, tx, hp, -⟩ := Sound.position_of_fault hf
  · rw [hp]
    exact onward_finishing rfl rfl
  · rw [hp]
    have htx := hs.isFailing_transmitting hp
    exact onward_active rfl htx rfl htx
  · rw [hp]
    have hrx := hs.isFailing_receiving hp
    refine onward_active hrx ?_ hrx rfl
    rw [fault?, hp] at hf
    cases tx <;> simp_all [transmitFault?]

/-- The transport failed, or the peer ended its side of an active session. -/
theorem fault_cases {e : Ending} (hf : s.fault? = some e) :
    (∃ phase text, e = .transport phase text) ∨ e = .peerClosed ∧ s.stage = .active := by
  unfold fault? at hf
  split at hf
  · split at hf <;> cases hf
    exact .inl ⟨_, _, rfl⟩
  · unfold receiveFault? at hf
    split at hf
    · cases hf
    · split at hf
      · cases hf
      · cases hf
        exact .inl ⟨_, _, rfl⟩
      · split at hf <;> cases hf
        next h => exact .inr ⟨rfl, h.2⟩
  · next tx hp =>
    cases tx with
    | writing | flushing | announcing | announced | closing =>
      obtain ⟨text, -, rfl⟩ := Option.map_eq_some_iff.mp hf
      exact .inl ⟨_, _, rfl⟩
    | _ => cases hf
  · cases hf

/-- A failure is none that somebody asked for. -/
theorem ne_cancelled_of_fault {e : Ending} (hf : s.fault? = some e) : e ≠ .cancelled := by
  rintro rfl
  obtain ⟨phase, text, heq⟩ | ⟨heq, -⟩ := fault_cases hf <;> cases heq

theorem up_reporting {e : Ending} (hf : s.fault? = some e) :
    (s.position.reporting e).isUp = s.position.isUp ∧
      (s.position.reporting e).isEarly = false ∧
      (s.position.reporting e).isTold = false ∧
      (s.position.reporting e).reported? = some e := by
  obtain hp | ⟨tx, hp⟩ | ⟨rx, tx, hp, -⟩ := Sound.position_of_fault hf
  · rw [hp]
    exact ⟨rfl, rfl, rfl, rfl⟩
  · rw [hp]
    exact ⟨rfl, rfl, rfl, rfl⟩
  · rw [hp]
    refine ⟨rfl, rfl, rfl, ?_⟩
    cases rx <;> rfl

/-- The first failure is reported; any other leaves the handler alone. -/
theorem fails {e : Ending} (h : Told s r) (hs : Sound s) (hf : s.fault? = some e) (link : Link)
    (x : Transmission) :
    ∃ r', Told ({ s with link := link, progress := { s.progress with transmission := x } }.fail e
      (s.position.reporting e) s.position.dismissed) r' := by
  have honward := onward_dismissed hs hf
  have htold := honward.untold.1
  have hresult := h.result_eq_none htold
  have hne := ne_cancelled_of_fault hf
  cases hv : s.progress.verdict with
  | none =>
    have hfault := h.fault_eq_none (by simp [hv])
    obtain ⟨hup, hearly, htold', hrep⟩ := up_reporting hf
    refine ⟨{ r with fault := some e }, ?_⟩
    constructor
    · have hlog :
        ({ s with link := link, progress := { s.progress with transmission := x } }.fail e
          (s.position.reporting e) s.position.dismissed).log = .error e :: s.log := by
        simp [fail_eq, hv]
      rw [callbacks_of_called hlog rfl, h.callbacks, htold, Report.prelude_error hfault]
      simp only [fail_eq, hv, if_true]
      rw [htold']
      simp
    · simp [fail_eq, hv, hearly]
    · simp only [fail_eq, hv, if_true]
      rw [hup]
      exact h.up
    · simp [fail_eq, hv, Progress.judge]
    · simpa using hne
    · simp only [fail_eq, hv, if_true]
      rw [hrep]
      exact fun e' he' => he'
    · simp [fail_eq, hv, hrep]
    · intro e' he'
      have hfailure : s.failure = some e' := by simpa [fail_eq] using he'
      rw [h.genuine e' hfailure] at hfault
      cases hfault
    · intro e' b he'
      simp only [fail_eq, hv, if_true] at he'
      rw [he'] at htold'
      cases htold'
    · simp [fail_eq, hresult]
  | some v =>
    refine ⟨r, ?_⟩
    refine h.of_onward ?_ ?_ ?_ ?_ ?_
    · simpa [fail_eq, hv] using honward
    · exact callbacks_of_log (by simp [fail_eq, hv])
    · simp [fail_eq, hv, Progress.judge]
    · simp [fail_eq]
    · simp [fail_eq]

theorem records {e : Ending} (h : Told s r) (hs : Sound s) (hp : s.position.reported? = some e) :
    Told (s.record e s.position.dismissed) r := by
  have hfault := h.reported e hp
  have htold : s.position.isTold = false := by
    cases hpos : s.position <;> rw [hpos] at hp <;> first | rfl | cases hp
  have hplace : s.position.dismissed.isTold = false ∧ s.position.dismissed.isEarly = false ∧
      (s.position.dismissed.isUp = true → s.position.isUp = true) ∧
      s.position.dismissed.reported? = none := by
    cases hpos : s.position with
    | refusing e => exact ⟨rfl, rfl, nofun, rfl⟩
    | active turn rx tx =>
      cases turn with
      | receive =>
        exact ⟨rfl, rfl, fun _ => rfl, reported?_active rfl (hs.isFailing_transmitting hpos)⟩
      | transmit =>
        exact ⟨rfl, rfl, fun _ => rfl, reported?_active (hs.isFailing_receiving hpos) rfl⟩
    | _ => rw [hpos] at hp; cases hp
  obtain ⟨htold', hearly, hup, hrep⟩ := hplace
  have hposition : (s.record e s.position.dismissed).position = s.position.dismissed := rfl
  have hresult : (s.record e s.position.dismissed).result = s.result := rfl
  refine ⟨?_, ?_, ?_, h.failed, h.proper, ?_, ?_, ?_, ?_, ?_⟩
  · show s.callbacks = _
    rw [h.callbacks, htold, hposition, htold']
  · rw [hposition, hearly]
    nofun
  · exact fun hu => h.up (hup hu)
  · rw [hposition, hrep]
    nofun
  · exact fun _ _ => hfault.symm
  · intro e' he
    cases he
    exact hfault
  · intro e' b he
    rw [hposition] at he
    rw [he] at htold'
    cases htold'
  · rw [hresult, h.result_eq_none htold]
    nofun

/-- The handler hears of the connection before anything else. -/
theorem connects (h : Told s r) (hp : s.position = .opened) (hv : s.progress.verdict = none)
    (ht : t.log = .connected s.name :: s.log) (htp : t.position = .active .receive .reading .asking)
    (verdict : t.progress.verdict = s.progress.verdict) (failure : t.failure = s.failure)
    (result : t.result = s.result) : ∃ r', Told t r' := by
  have hgreeting : r.greeting = none := h.early (by rw [hp]; rfl)
  have hfault : r.fault = none := h.fault_eq_none (by simp [hv])
  refine ⟨{ r with greeting := some (s.name, []) }, ?_, ?_, ?_, ?_, ?_, ?_, ?_, ?_, ?_, ?_⟩
  · rw [callbacks_of_called ht rfl, h.callbacks, Report.prelude_connected hgreeting hfault,
      hp, htp]
    simp [Position.isTold]
  · rw [htp]
    nofun
  · simp
  · rw [verdict]
    exact h.failed
  · exact h.proper
  · rw [htp]
    nofun
  · intro _ _
    rw [failure]
    exact h.recorded (by rw [hp]; rfl) (by rw [hp]; rfl)
  · rw [failure]
    exact h.genuine
  · rw [htp]
    nofun
  · rw [result, h.result_eq_none (by rw [hp]; rfl)]
    nofun

/-- Messages are handed on as long as no failure closed the session. -/
theorem hands {tx : Transmitting} {message : String} (h : Told s r) (hs : Sound s)
    (hp : s.position = .active .receive .reading tx) (hr : s.progress.receive ≠ .pulled)
    (ht : t.log = .message message :: s.log) (htp : t.position = s.position)
    (verdict : t.progress.verdict = s.progress.verdict) (failure : t.failure = s.failure)
    (result : t.result = s.result) : ∃ r', Told t r' := by
  have hfault : r.fault = none := by
    refine h.fault_eq_none ?_
    intro hv
    have hclosed := hs.coherent.closed_of_failed hv
    have hcoherent := hs.coherent
    have hfits := hs.fits
    rw [hp] at hfits
    rw [Progress.Coherent, hclosed] at hcoherent
    cases hi : s.progress.receive with
    | absent => exact hfits.1.2.2 hi
    | ready b => simp [hi] at hcoherent
    | pulled => exact hr hi
  obtain ⟨⟨name, texts⟩, hgreeting⟩ :=
    Option.ne_none_iff_exists'.mp (h.up (by rw [hp]; rfl))
  refine ⟨{ r with greeting := some (name, texts ++ [message]) }, ?_, ?_, ?_, ?_, ?_, ?_, ?_, ?_,
    ?_, ?_⟩
  · rw [callbacks_of_called ht rfl, h.callbacks, Report.prelude_message hgreeting hfault, htp, hp]
    simp [Position.isTold]
  · rw [htp, hp]
    simp [Position.isEarly]
  · simp
  · rw [verdict]
    exact h.failed
  · exact h.proper
  · rw [htp]
    exact h.reported
  · rw [htp, failure]
    exact h.recorded
  · rw [failure]
    exact h.genuine
  · rw [htp, hp]
    simp
  · rw [result, h.result_eq_none (by rw [hp]; rfl)]
    simp

/-- The end is reported with the failure that was reported before, if one was. -/
theorem reason_eq (h : Told s r) {resolves : Bool} (hp : s.position = .finishing resolves) :
    s.reason = r.reason := by
  have hfailure : s.failure = r.fault := h.recorded (by rw [hp]; rfl) (by rw [hp]; rfl)
  unfold reason Report.reason
  split
  · next hv =>
    obtain ⟨e, he⟩ := Option.ne_none_iff_exists'.mp (h.failed.mp hv)
    rw [hfailure, he]
    rfl
  · next hv =>
    rw [h.fault_eq_none hv]
    rfl

theorem concludes {resolves : Bool} (h : Told s r) (hp : s.position = .finishing resolves) :
    Told (s.conclude resolves) r := by
  have hreason := h.reason_eq hp
  have hlog : (s.conclude resolves).log = .closed s.reason :: s.log := by
    rw [conclude_eq]
  have hposition : (s.conclude resolves).position = .concluding s.reason resolves := by
    rw [conclude_eq]
  refine ⟨?_, ?_, ?_, ?_, h.proper, ?_, ?_, ?_, ?_, ?_⟩
  · rw [callbacks_of_called hlog rfl, h.callbacks, hposition, hp, hreason]
    simp [Position.isTold]
  · rw [hposition]
    nofun
  · rw [hposition]
    nofun
  · rw [conclude_eq, settleProgress_eq]
    show some (s.progress.verdict.getD .cancelled) = some .failed ↔ r.fault ≠ none
    rw [← h.failed]
    cases s.progress.verdict <;> simp
  · rw [hposition]
    nofun
  · rw [hposition]
    nofun
  · rw [conclude_eq]
    nofun
  · intro e b he
    rw [hposition] at he
    cases he
    exact hreason
  · have hresult : (s.conclude resolves).result = s.result := by
      rw [conclude_eq, settleProgress_eq]
    rw [hresult, h.result_eq_none (by rw [hp]; rfl)]
    nofun

theorem finishes {reason : Ending} {resolves : Bool} (h : Told s r)
    (hp : s.position = .concluding reason resolves) : Told (s.finish reason resolves) r := by
  have hreason := h.concluding _ _ hp
  rw [finish_eq, unhookEngine_eq]
  refine ⟨?_, nofun, nofun, h.failed, h.proper, nofun, nofun, h.genuine, nofun, ?_⟩
  · show s.callbacks = _
    rw [h.callbacks, hp]
    rfl
  · intro e he
    refine ⟨rfl, ?_⟩
    have hresult : (if resolves then some reason else s.result) = some e := he
    split at hresult
    · cases hresult
      exact hreason
    · have := (h.result e hresult).1
      rw [hp] at this
      cases this

/-! ### Every step tells a part of a report -/

theorem advances (h : Told s r) (hs : Sound s) (hr : s.running = true) (ha : Advances s t) :
    ∃ r', Told t r' := by
  have silent : ∀ {p : Position}, s.position.Onward p → t.position = p →
      t.callbacks = s.callbacks → t.progress.verdict = s.progress.verdict →
      t.failure = s.failure → t.result = s.result → ∃ r', Told t r' := by
    intro p hp hposition hcallbacks hverdict hfailure hresult
    rw [← hposition] at hp
    exact ⟨r, h.of_onward hp hcallbacks hverdict hfailure hresult⟩
  cases ha with
  | rests hp =>
    have hcan := hs.runs hr
    rcases hp with hp | hp | hp <;> rw [hp] at hcan <;> exact absurd hcan id
  | goes hg => exact silent (hg.onward hs) rfl rfl rfl rfl rfl
  | sleeps hg => exact silent (hg.onward hs) rfl rfl rfl rfl rfl
  | shuts hg =>
    rw [wireClosed_eq] at silent ⊢
    exact silent (hg.onward hs) rfl (callbacks_of_silent rfl rfl) rfl rfl rfl
  | prepares hp hv =>
    refine silent (p := .preparing) ?_ rfl rfl rfl rfl rfl
    rw [hp]
    exact ⟨fun _ => rfl, nofun, ⟨rfl, rfl⟩, rfl, rfl⟩
  | begins hp hh =>
    refine silent (p := .awaiting) ?_ rfl (callbacks_of_silent rfl rfl) rfl rfl rfl
    rw [hp]
    exact ⟨fun _ => rfl, nofun, ⟨rfl, rfl⟩, rfl, rfl⟩
  | abandons hp hh =>
    refine silent (p := .finishing true) ?_ rfl (callbacks_of_silent rfl rfl) rfl rfl rfl
    rcases hp with hp | hp | ⟨hp, -⟩ <;> rw [hp] <;> exact onward_finishing rfl rfl
  | hopes hp ho hh =>
    refine silent (p := .handshaking) ?_ rfl rfl rfl rfl rfl
    rw [hp]
    exact ⟨fun _ => rfl, nofun, ⟨rfl, rfl⟩, rfl, rfl⟩
  | opens hp ho =>
    refine silent (p := .opened) ?_ rfl rfl rfl rfl rfl
    rw [hp]
    exact ⟨fun _ => rfl, nofun, ⟨rfl, rfl⟩, rfl, rfl⟩
  | fails hf link => exact h.fails hs hf link _
  | records hp => exact ⟨r, h.records hs hp⟩
  | turnsAway hp hv =>
    refine silent (p := .discarding) ?_ rfl rfl rfl rfl rfl
    rw [hp]
    exact ⟨nofun, nofun, ⟨rfl, rfl⟩, rfl, rfl⟩
  | connects hp hv => exact h.connects hp hv rfl rfl rfl rfl rfl
  | hands hp hn hl => exact h.hands hs hp hn rfl rfl rfl rfl rfl
  | listens hp hn hl he =>
    refine silent ?_ rfl rfl rfl rfl rfl
    rw [hp]
    have htx := hs.isFailing_transmitting hp
    exact onward_active rfl htx rfl htx
  | asks hp hw =>
    rw [passOn_eq] at silent ⊢
    refine silent ?_ rfl rfl rfl rfl rfl
    rw [hp]
    have hrx := hs.isFailing_receiving hp
    exact onward_active hrx rfl hrx rfl
  | isDenied hp hw => exact absurd hw (hs.wait?_ne_none hp)
  | takes hp ho =>
    refine silent ?_ rfl rfl rfl rfl rfl
    rw [hp]
    have hrx := hs.isFailing_receiving hp
    exact onward_active hrx rfl hrx rfl
  | parts hp ho hd =>
    refine silent ?_ rfl rfl rfl rfl rfl
    rw [hp]
    have hrx := hs.isFailing_receiving hp
    exact onward_active hrx rfl hrx (Sound.isFailing_parting s)
  | idles hp ho =>
    refine silent ?_ rfl rfl rfl rfl rfl
    rw [hp]
    have hrx := hs.isFailing_receiving hp
    exact onward_active hrx rfl hrx rfl
  | writes hp hl =>
    refine silent ?_ rfl (callbacks_of_silent rfl rfl) rfl rfl rfl
    rw [hp]
    have hrx := hs.isFailing_receiving hp
    exact onward_active hrx rfl hrx rfl
  | hasWritten hp hl hh =>
    refine silent ?_ rfl rfl rfl rfl rfl
    rw [hp]
    have hrx := hs.isFailing_receiving hp
    exact onward_active hrx rfl hrx rfl
  | announces hp hl =>
    refine silent ?_ rfl (callbacks_of_silent rfl rfl) rfl rfl rfl
    rw [hp]
    have hrx := hs.isFailing_receiving hp
    exact onward_active hrx rfl hrx rfl
  | lingers hp hl =>
    refine silent ?_ rfl rfl rfl rfl rfl
    rw [hp]
    have hrx := hs.isFailing_receiving hp
    exact onward_active hrx rfl hrx rfl
  | concludes hp => exact ⟨r, h.concludes hp⟩
  | finishes hp => exact ⟨r, h.finishes hp⟩

theorem perform (h : Told s r) (d : Deed) (quiet : d.raised? = none) : Told (s.perform d) r := by
  cases d with
  | act a =>
    obtain ⟨message, -, ha⟩ | ⟨message, rfl, -⟩ | ⟨-, ha⟩ := act_cases s a
    · rw [Session.perform, ha, send_eq]
      split
      · exact h
      · exact h.of_same rfl .rfl rfl rfl rfl
    · cases quiet
    · exact h.aside ha
  | engineStop =>
    rw [Session.perform, onStop_eq]
    refine h.of_same rfl ?_ rfl rfl rfl
    show s.onStop.progress.verdict = _ ↔ _
    rw [progress_onStop]
    show some (s.progress.verdict.getD .cancelled) = _ ↔ _
    cases s.progress.verdict <;> simp
  | heard id => exact h.of_same rfl .rfl rfl rfl rfl

theorem moves {m : Move} (h : Told s r) (hs : Sound s) (hm : Moves s m t)
    (quiet : s.raised? m = none) : ∃ r', Told t r' := by
  cases hm with
  | stays => exact ⟨r, h⟩
  | acts a => exact ⟨r, h.perform (.act a) quiet⟩
  | does hd =>
    rw [raised?_of_doing hd] at quiet
    exact ⟨r, (h.aside (aside_doing s _)).perform _ quiet⟩
  | advances hd hr ha => exact h.advances hs hr ha
  | hands hp hq =>
    refine ⟨r, h.of_onward ?_ rfl rfl rfl rfl⟩
    rw [hp]
    exact ⟨fun _ => rfl, nofun, ⟨rfl, rfl⟩, rfl, rfl⟩
  | refuses hp ha =>
    refine ⟨r, h.of_onward ?_ rfl rfl rfl rfl⟩
    rw [hp]
    exact onward_finishing rfl rfl
  | resumes hr hp hq => exact ⟨r, h.of_same rfl .rfl rfl rfl rfl⟩
  | misses hr hq hp => exact ⟨r, h.of_same rfl .rfl rfl rfl rfl⟩
  | drops hr hp =>
    rw [releaseOperations_eq]
    refine ⟨r, h.of_onward (onward_finishing ?_ (hs.reported?_of_rests hr)) ?_ rfl rfl rfl⟩
    · have hrest := hs.rests hr
      cases hpos : s.position <;> rw [hpos] at hp hrest <;>
        first | rfl | exact absurd hp id | exact absurd hrest id
    · show Session.callbacks { s with log := s.lastWords ++ s.log } = _
      unfold lastWords
      split <;> first | rfl | exact callbacks_of_silent rfl rfl
  | disowns hp =>
    rw [unhookEngine_eq]
    refine ⟨r, h.of_onward ?_ rfl rfl rfl rfl⟩
    rw [hp]
    exact ⟨fun _ => rfl, nofun, ⟨rfl, rfl⟩, rfl, rfl⟩
  | shuts => exact ⟨r, h.of_same rfl .rfl rfl rfl rfl⟩

end Told

/-! ### Whether the future resolves -/

/-- The future was let go in the course of the moves. -/
def WasLetGo : Session → List Move → Prop
  | _, [] => False
  | s, m :: ms => s.LetsGo m ∨ (s.move m).WasLetGo ms

theorem wasLetGo_concat (s : Session) (ms : List Move) (m : Move) :
    s.WasLetGo (ms ++ [m]) ↔ s.WasLetGo ms ∨ (s.after ms).LetsGo m := by
  induction ms generalizing s with
  | nil => simp [WasLetGo]
  | cons n ms ih =>
    rw [List.cons_append, WasLetGo, WasLetGo, ih, after_cons, or_assoc]

/-- The future may be gone, or may go, without a result. -/
def Position.mayLose : Position → Bool
  | finishing resolves | concluding _ resolves => !resolves
  | .over => true
  | engine | neverRun | spawned | preparing | handshaking | awaiting | opened | refusing _
  | discarding | active _ _ _ => false

/-- The future is gone, or about to go, without a result. -/
def IsLost (s : Session) : Prop :=
  s.position.mayLose = true ∧ s.result = none

theorem isLost_advances {s t : Session} (hs : Sound s) (hr : s.running = true)
    (ha : Advances s t) (calm : t.panicked = none) (h : t.IsLost) : s.IsLost := by
  obtain ⟨hlose, hresult⟩ := h
  have kept : t.position.mayLose = false → s.IsLost := by
    intro hk
    rw [hk] at hlose
    cases hlose
  cases ha with
  | rests hp =>
    have hcan := hs.runs hr
    rcases hp with hp | hp | hp <;> rw [hp] at hcan <;> exact absurd hcan id
  | goes hg => exact kept (by cases hg <;> rfl)
  | sleeps hg => exact kept (by cases hg <;> rfl)
  | shuts hg => exact kept (by cases hg <;> rfl)
  | fails hf link =>
    refine kept ?_
    rw [fail_eq]
    rcases Sound.position_of_fault hf with hp | ⟨tx, hp⟩ | ⟨rx, tx, hp, -⟩ <;>
      simp only [hp] <;> split <;> rfl
  | records hp =>
    refine kept ?_
    show s.position.dismissed.mayLose = false
    cases hpos : s.position with
    | active turn rx tx => cases turn <;> rfl
    | refusing e => rfl
    | _ => rw [hpos] at hp; cases hp
  | hands hp hn hl =>
    refine kept ?_
    show s.position.mayLose = false
    rw [hp]
    rfl
  | asks hp hw => exact kept (by rw [passOn_eq]; rfl)
  | isDenied hp hw => exact absurd hw (hs.wait?_ne_none hp)
  | concludes hp =>
    rw [conclude_eq, settleProgress_eq] at hresult
    rw [conclude_eq] at hlose
    exact ⟨by rw [hp]; exact hlose, hresult⟩
  | @finishes reason resolves hp =>
    rw [finish_eq, unhookEngine_eq] at hresult
    have hres : (if resolves then some reason else s.result) = none := hresult
    cases resolves with
    | true => cases hres
    | false => exact ⟨by rw [hp]; rfl, hres⟩
  | _ => exact kept rfl

theorem isLost_perform {s : Session} (d : Deed) (calm : (s.perform d).panicked = none)
    (h : (s.perform d).IsLost) : s.IsLost := by
  have same : ∀ t : Session, t.position = s.position → t.result = s.result → t.IsLost →
      s.IsLost := by
    intro t hp hr ht
    rwa [IsLost, hp, hr] at ht
  cases d with
  | act a =>
    obtain ⟨message, -, ha⟩ | ⟨message, -, ha⟩ | ⟨-, ha⟩ := act_cases s a
    · rw [perform, ha, send_eq] at h
      split at h <;> exact same _ rfl rfl h
    · rw [perform, ha, panicked_tearDown] at calm
      cases calm
    · exact same _ ha.position ha.result h
  | engineStop =>
    rw [perform, onStop_eq] at h
    exact same _ rfl rfl h
  | heard id => exact same _ rfl rfl h

/-- Only a future that is let go gets lost. -/
theorem isLost_moves {s t : Session} {m : Move} (hs : Sound s) (hm : Moves s m t)
    (calm : t.panicked = none) (h : t.IsLost) : s.IsLost ∨ s.LetsGo m := by
  cases hm with
  | stays => exact .inl h
  | acts a => exact .inl (isLost_perform (.act a) calm h)
  | does hd =>
    have hlost := isLost_perform _ calm h
    exact .inl hlost
  | advances hd hr ha => exact .inl (isLost_advances hs hr ha calm h)
  | hands hp hq => exact absurd h.1 (by simp [Position.mayLose])
  | refuses hp ha => exact .inr ⟨hp, ha⟩
  | resumes hr hp hq => exact .inl h
  | misses hr hq hp => exact .inl h
  | drops hr hp => exact .inr ⟨hr, hp⟩
  | disowns hp =>
    exact absurd h.1 (by simp [Position.mayLose])
  | shuts => exact .inl h

/-! ### Every run -/

theorem Origin.told (o : Origin) : Told o.session {} := by
  refine ⟨rfl, fun _ => rfl, nofun, ?_, nofun, nofun, fun _ _ => rfl, nofun, nofun, nofun⟩
  simp [session, create, Settings.progress]

theorem told_after {o : Origin} {ms : List Move} (calm : (o.session.after ms).panicked = none) :
    ∃ r, Told (o.session.after ms) r := by
  refine calm_induction (P := fun _ s => ∃ r, Told s r) ⟨{}, o.told⟩ ?_ calm
  rintro ms s m - hs hcalm ⟨r, hr⟩
  exact hr.moves hs (moves s m) (raised?_eq_none hcalm)

theorem wasLetGo_of_isLost {o : Origin} {ms : List Move}
    (calm : (o.session.after ms).panicked = none) :
    (o.session.after ms).IsLost → o.session.WasLetGo ms := by
  refine calm_induction (P := fun ms s => s.IsLost → o.session.WasLetGo ms) ?_ ?_ calm
  · intro h
    exact absurd h.1 (by simp [Origin.session, create, Position.mayLose])
  · rintro ms s m rfl hs hcalm ih h
    rw [wasLetGo_concat]
    rcases isLost_moves hs (moves _ m) hcalm h with hlost | hgo
    · exact .inl (ih hlost)
    · exact .inr hgo

/-- **In every run the handler is told a part of a report, and all of it once the future is gone.**

The report says of a failure exactly when the reason is none that somebody asked for, and then the
two are the same; the future resolves to that reason, unless it was let go.  A future that is let go
ends the session there and then. -/
theorem report_of_run (o : Origin) (ms : List Move)
    (calm : ∀ message, (o.session.after ms).panicked ≠ some (.raised message)) :
    ∃ r : Report,
      (r.fault = none ∧ r.reason = .cancelled ∨ r.fault = some r.reason ∧
        r.reason ≠ .cancelled) ∧
      (o.session.after ms).callbacks <+: r.events ∧
      ((o.session.after ms).position.isTold = true →
        (o.session.after ms).callbacks = r.events) ∧
      ((o.session.after ms).position.isTold = false →
        ∀ e, .closed e ∉ (o.session.after ms).callbacks) ∧
      ((o.session.after ms).running = false →
        ((o.session.after ms).position.isTold = true ↔ (o.session.after ms).position = .over)) ∧
      (∀ e, (o.session.after ms).result = some e →
        (o.session.after ms).position = .over ∧ e = r.reason) ∧
      ((o.session.after ms).position = .over → (o.session.after ms).result = none →
        o.session.WasLetGo ms) ∧
      ∀ m, (o.session.after ms).LetsGo m →
        ∃ n, (o.session.after (ms ++ m :: .replicate n .tick)).position = .over ∧
          (o.session.after (ms ++ m :: .replicate n .tick)).isQuiet = true := by
  have hcalm := panicked_eq_none calm
  have hs := sound_after o ms
  obtain ⟨r, h⟩ := told_after hcalm
  refine ⟨r, ?_, ?_, ?_, ?_, ?_, h.result, ?_, ?_⟩
  · cases hf : r.fault with
    | none => exact .inl ⟨rfl, by rw [Report.reason, hf]; rfl⟩
    | some e =>
      have hr : r.reason = e := by rw [Report.reason, hf]; rfl
      have hne := h.proper
      rw [hf] at hne
      rw [hr]
      exact .inr ⟨rfl, fun he => hne (by rw [he])⟩
  · exact h.callbacks_prefix
  · intro ht
    rw [h.callbacks, ht]
    rfl
  · intro ht e
    rw [h.callbacks, ht]
    simpa using r.closed_not_mem_prelude e
  · intro hr
    have hrest := hs.rests hr
    cases hp : (o.session.after ms).position with
    | concluding e b => rw [hp] at hrest; exact absurd hrest id
    | _ => simp [Position.isTold]
  · intro hp hres
    exact wasLetGo_of_isLost hcalm ⟨by rw [hp]; rfl, hres⟩
  · intro m hm
    have perm : ∀ l, ((o.session.after ms).order l).Perm l := by
      rw [order_after]
      exact o.order_perm
    obtain ⟨n, hn⟩ := over_of_letsGo perm hm
    refine ⟨n, ?_⟩
    rw [after_append]
    exact hn

/-- A peer that says a word and hangs up. -/
def Origin.shortTalk : Origin where
  link := { inbound := [.ok "hello"], ended := true }

/-- Whoever talks with such a peer hears of the connection, the word, the failure and the end, and
the future resolves to that failure. -/
theorem report_of_shortTalk :
    ∃ r : Report, r.reason = .peerClosed ∧
      (Origin.shortTalk.session.after (.serve :: .poll :: .replicate 20 .tick)).callbacks
        = r.events := by
  have hpanicked : (Origin.shortTalk.session.after
      (.serve :: .poll :: .replicate 20 .tick)).panicked = none := by decide +kernel
  have htold : (Origin.shortTalk.session.after
      (.serve :: .poll :: .replicate 20 .tick)).position.isTold = true := by decide +kernel
  have hresult : (Origin.shortTalk.session.after
      (.serve :: .poll :: .replicate 20 .tick)).result = some .peerClosed := by decide +kernel
  obtain ⟨r, -, -, hwhole, -, -, hres, -, -⟩ :=
    report_of_run Origin.shortTalk (.serve :: .poll :: .replicate 20 .tick) (by
      intro message
      rw [hpanicked]
      nofun)
  exact ⟨r, (hres _ hresult).2.symm, hwhole htold⟩

end Dialogue.Session
