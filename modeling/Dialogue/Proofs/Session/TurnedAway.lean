/-
A stop keeps a session from opening.

What a session has still to say that was stopped on its way can be read off the place of its future.
It is the `outlook`, and a step of whatever kind leaves a part of it: `Narrows` is a preorder, so
the induction over a run is nothing but transitivity.  A panic inside of the future breaks it off,
and then what was said is the beginning of it.

The other half is what happens without a stop, where a handshake that fails is the longer story:
`Refuses` has one constructor for each place where the future can be then.
-/
import Dialogue.Proofs.Session.Opening

namespace Dialogue.Session

variable {s t : Session}

/-! ### What a stopped session has still to say -/

/-- What a session that was stopped on the way to an open connection has still to say: one of
these. -/
def Position.outlook : Position → List (List Event)
  | engine => [[], [.closed .cancelled]]
  | spawned | finishing _ => [[.closed .cancelled]]
  | preparing | handshaking => [[.abandoned, .closed .cancelled]]
  | awaiting =>
    [[.abandoned, .closed .cancelled], [.wireClosed, .closed .cancelled], [.closed .cancelled]]
  | opened | discarding => [[.wireClosed, .closed .cancelled], [.closed .cancelled]]
  | neverRun | concluding .cancelled _ | .over => [[]]
  | refusing _ | active _ _ _ | concluding _ _ => []

/-- What is to be said in the end could be said before. -/
def Narrows (s t : Session) : Prop :=
  ∀ w ∈ t.position.outlook, ∃ v ∈ s.position.outlook, t.chronicle ++ w = s.chronicle ++ v

theorem Narrows.refl (s : Session) : Narrows s s :=
  fun w hw => ⟨w, hw, rfl⟩

theorem Narrows.trans {u : Session} (h : Narrows s t) (h' : Narrows t u) : Narrows s u := by
  intro w hw
  obtain ⟨v, hv, heq⟩ := h' w hw
  obtain ⟨v', hv', heq'⟩ := h v hv
  exact ⟨v', hv', heq.trans heq'⟩

theorem Narrows.of_comes {q : Position} {told : List Event} (h : Comes s t q told)
    (hq : ∀ w ∈ q.outlook, told ++ w ∈ s.position.outlook) : Narrows s t := by
  intro w hw
  rw [h.position] at hw
  refine ⟨told ++ w, hq w hw, ?_⟩
  rw [h.said, List.append_assoc]

/-- A stopped session goes by the table to a place with less to say, and to no poll of the
handshake. -/
theorem outlook_of_opening {q : Position} {told : List Event}
    (h : s.opening? true = some (q, told)) :
    q.outlook ≠ [] ∧ q ≠ .awaiting ∧ q ≠ .over ∧
    ∀ w ∈ q.outlook, told ++ w ∈ s.position.outlook := by
  cases hp : s.position with
  | spawned | preparing | handshaking | opened =>
    rw [opening?, hp] at h
    cases h
    simp [Position.outlook]
  | awaiting =>
    rw [opening?, hp] at h
    dsimp only at h
    split at h <;> cases h <;> simp [Position.outlook]
  | discarding =>
    rw [opening?, hp] at h
    dsimp only at h
    split at h
    · cases h
      simp [Position.outlook]
    · cases hheld : s.link.closeHeld <;> rw [hheld] at h <;> cases h <;> simp [Position.outlook]
  | _ =>
    rw [opening?, hp] at h
    cases h

theorem outlook_of_brought {q : Position} {told : List Event} (h : Brought s q told)
    (ho : s.position.outlook ≠ []) :
    q.outlook ≠ [] ∧ (q = .awaiting → s.position = .awaiting) ∧
      ∀ w ∈ q.outlook, told ++ w ∈ s.position.outlook := by
  cases h with
  | stays => exact ⟨ho, id, fun w hw => hw⟩
  | given hp => simp [hp, Position.outlook]
  | disowned hp => simp [hp, Position.outlook]
  | letGo rests there =>
    unfold lastWords
    cases hp : s.position <;> rw [hp] at rests there ho <;>
      simp_all [Position.outlook, Position.CanRest]

/-! ### A session that was stopped on the way -/

/-- A session that was stopped on the way to an open connection, and goes the way out. -/
structure Leaves (s : Session) : Prop where
  unfailed : s.progress.verdict ≠ some .failed
  /-- It is never active, and never says farewell. -/
  unopened : s.stage ≠ .active ∧ s.stage ≠ .closing
  place : s.position.outlook ≠ []
  result : ∀ e, s.result = some e → e = .cancelled

namespace Leaves

theorem of_early {o : Origin} {ms : List Move} (h : (o.session.after ms).position.isEarly = true) :
    Leaves (o.session.after ms) := by
  have hs := sound_after o ms
  have hresult : (o.session.after ms).result = none := by
    by_contra hne
    rw [over_of_result hne] at h
    cases h
  obtain ⟨w, hw, -⟩ := Position.prologue_of_early h
  have hstage := hs.stage_of_prologue hw
  refine ⟨?_, ?_, ?_, ?_⟩
  · intro hv
    have hclosed := hs.coherent.closed_of_failed hv
    rw [stage, hclosed] at hstage
    rcases hstage with hstage | hstage <;> cases hstage
  · rcases hstage with hstage | hstage <;> simp [hstage]
  · cases hp : (o.session.after ms).position <;> simp_all [Position.outlook, Position.isEarly]
  · intro e he
    rw [hresult] at he
    cases he

/-- Others do not bring it back on its way. -/
theorem idles {q : Position} {told : List Event} (h : Leaves s) (hb : Brought s q told)
    (comes : Comes s t q told)
    (failed : t.progress.verdict = some .failed ↔ s.progress.verdict = some .failed)
    (stage : t.stage = s.stage ∨ s.stage = .active ∧ t.stage = .closing)
    (result : t.result = s.result) : Leaves t := by
  refine ⟨fun hv => h.unfailed (failed.mp hv), ?_, ?_, ?_⟩
  · rcases stage with hsame | ⟨hactive, -⟩
    · rw [hsame]
      exact h.unopened
    · exact absurd hactive h.unopened.1
  · rw [comes.position]
    exact (outlook_of_brought hb h.place).1
  · rw [result]
    exact h.result

/-- Something has ended it, and that was no failure. -/
theorem cancelled (h : Leaves s) (hv : s.progress.verdict ≠ none) :
    s.progress.verdict = some .cancelled := by
  cases hverdict : s.progress.verdict with
  | none => exact absurd hverdict hv
  | some v =>
    cases v with
    | cancelled => rfl
    | failed => exact absurd hverdict h.unfailed

/-- A step to a place with less to say, where the result is still none or that the session was
cancelled. -/
theorem goes {q : Position} {told : List Event} (h : Leaves s) (hs : Sound s)
    (hr : s.running = true) (hv : s.progress.verdict ≠ none) (comes : Comes s s.advance q told)
    (place : q.outlook ≠ []) (awaiting : q ≠ .awaiting)
    (said : ∀ w ∈ q.outlook, told ++ w ∈ s.position.outlook)
    (result : ∀ e, s.advance.result = some e → e = .cancelled) :
    Leaves s.advance ∧ Narrows s s.advance ∧ s.advance.position ≠ .awaiting := by
  have hs' : Sound s.advance := hs.advances hr (advances s)
  have hverdict := verdict_advances (advances s) (h.cancelled hv)
  have hunopened : s.advance.stage ≠ .active ∧ s.advance.stage ≠ .closing := by
    refine ⟨?_, ?_⟩
    · intro hactive
      rw [hs'.coherent.none_of_active hactive] at hverdict
      cases hverdict
    · intro hclosing
      rcases stage_advances hs (advances s) with hsame | hclosed | ⟨-, hnext⟩ | ⟨-, hnext⟩
      · exact h.unopened.2 (hsame.symm.trans hclosing)
      all_goals simp_all
  refine ⟨⟨by simp [hverdict], hunopened, ?_, result⟩, .of_comes comes said, ?_⟩
  · rwa [comes.position]
  · rwa [comes.position]

/-- The future takes a step on its way out. -/
theorem advance (h : Leaves s) (hs : Sound s) (hr : s.running = true)
    (hv : s.progress.verdict ≠ none) :
    Leaves s.advance ∧ Narrows s s.advance ∧ s.advance.position ≠ .awaiting := by
  have hcancelled := h.cancelled hv
  cases hopening : s.opening? true with
  | some step =>
    obtain ⟨q, told⟩ := step
    have hcomes := comes_of_opening hs (by rwa [hcancelled])
    obtain ⟨hplace, hawaiting, hover, hsaid⟩ := outlook_of_opening hopening
    refine h.goes hs hr hv hcomes hplace hawaiting hsaid ?_
    rcases result_advances hs (advances s) with hsame | hgone
    · rw [hsame]
      exact h.result
    · exact absurd (hcomes.position.symm.trans hgone) hover
  | none =>
    have hplace := h.place
    rcases position_of_unlisted hs hr hopening
      with ⟨e, hp⟩ | ⟨turn, rx, tx, hp⟩ | ⟨resolves, hp⟩ | ⟨reason, resolves, hp⟩
    · rw [hp] at hplace
      exact absurd rfl hplace
    · rw [hp] at hplace
      exact absurd rfl hplace
    · have hreason : s.reason = .cancelled := by rw [reason, hcancelled]
      have hadvance : s.advance = s.conclude resolves := by rw [Session.advance, hp]
      rw [conclude_eq, hreason, settleProgress_eq] at hadvance
      have hcomes : Comes s s.advance (.concluding .cancelled resolves) [.closed .cancelled] := by
        rw [hadvance]
        exact .saying rfl rfl rfl
      refine h.goes hs hr hv hcomes ?_ ?_ ?_ ?_
      · simp [Position.outlook]
      · intro hgone
        cases hgone
      · simp [hp, Position.outlook]
      · rw [hadvance]
        exact h.result
    · cases reason with
      | cancelled =>
        have hadvance : s.advance = s.finish .cancelled resolves := by rw [Session.advance, hp]
        rw [finish_eq, unhookEngine_eq] at hadvance
        have hcomes : Comes s s.advance .over [] := by
          rw [hadvance]
          exact .silent rfl rfl
        refine h.goes hs hr hv hcomes ?_ ?_ ?_ ?_
        · simp [Position.outlook]
        · intro hgone
          cases hgone
        · simp [hp, Position.outlook]
        · rw [hadvance]
          intro e he
          cases resolves with
          | true => exact (Option.some.inj he).symm
          | false => exact h.result e he
      | peerClosed | transport phase text =>
        rw [hp] at hplace
        exact absurd rfl hplace

end Leaves

/-! ### The way out -/

/-- The poll of the handshake that begins in a move. -/
def handshakePoll? (s : Session) (m : Move) : Option Unit :=
  if s.position ≠ .awaiting ∧ (s.move m).position = .awaiting then some () else none

/-- The polls of the handshake. -/
def handshakePolls (s : Session) (ms : List Move) : List Unit :=
  seen move handshakePoll? s ms

/-- How far a session has come that was stopped in an earlier state of it. -/
inductive WayOut (s : Session) (ns : List Move) : Prop
  | leaves (h : Leaves (s.after ns)) (narrows : Narrows s (s.after ns))
  /-- A panic has torn it down. -/
  | torn (position : (s.after ns).position = .over) (raised : s.raised ns ≠ [])
      (said : ∃ w ∈ s.position.outlook, (s.after ns).chronicle <+: s.chronicle ++ w)
      (result : ∀ e, (s.after ns).result = some e → e = .cancelled)

/-- The last words are the beginning of what is to be said. -/
theorem lastWords_prefix (h : s.position.outlook ≠ []) :
    ∃ w ∈ s.position.outlook, s.lastWords <+: w := by
  unfold lastWords
  cases hp : s.position with
  | handshaking | awaiting =>
    exact ⟨[.abandoned, .closed .cancelled], List.mem_cons_self, [.closed .cancelled], rfl⟩
  | _ =>
    rw [hp] at h
    obtain ⟨w, hw⟩ := List.exists_mem_of_ne_nil _ h
    exact ⟨w, hw, List.nil_prefix⟩

/-- Nothing is to be said once the end was reported. -/
theorem Position.eq_nil_of_isTold {p : Position} {w : List Event} (h : p.isTold = true)
    (hw : w ∈ p.outlook) : w = [] := by
  cases p with
  | concluding reason resolves => cases reason <;> simp_all [outlook]
  | engine | neverRun | spawned | preparing | handshaking | awaiting | refusing | opened
  | discarding | active | finishing => cases h
  | _ => exact List.mem_singleton.mp hw

/-- The handler is to be told of the end. -/
theorem Position.callbacks_of_outlook {p : Position} {w : List Event} (hw : w ∈ p.outlook) :
    w.filter Event.isCallback <+: [.closed .cancelled] := by
  cases p with
  | concluding reason resolves => cases reason <;> simp_all [outlook]
  | refusing e | active turn rx tx => exact absurd hw List.not_mem_nil
  | _ =>
    simp only [outlook, List.mem_cons, List.not_mem_nil, or_false] at hw
    rcases hw with rfl | rfl | rfl <;> decide

/-- On the way out no frame is read and none is written. -/
theorem frameless_of_place (h : s.position.outlook ≠ []) (m : Move) :
    s.read? m = none ∧ s.frame? m = none := by
  have hframes : s.nextFrame? = none ∧ s.position.frame? = none := by
    unfold nextFrame?
    cases hp : s.position with
    | active turn rx tx =>
      rw [hp] at h
      exact absurd rfl h
    | _ => exact ⟨rfl, rfl⟩
  cases m <;> simp [read?, frame?, hframes]

theorem handshakePoll?_eq_none {m : Move}
    (h : (s.move m).position = .awaiting → s.position = .awaiting) : s.handshakePoll? m = none :=
  if_neg fun hpoll => hpoll.1 (h hpoll.2)

/-- A move in which no frame is read, none is written, and no poll of the handshake begins. -/
structure IsFrameless (s : Session) (m : Move) : Prop where
  poll : s.handshakePoll? m = none
  read : s.read? m = none
  frame : s.frame? m = none

namespace WayOut

variable {ns : List Move}

theorem of_leaves (h : Leaves (s.after ns)) (narrows : Narrows s (s.after ns))
    (hs : Sound (s.after ns)) (m : Move)
    (hv : (s.after ns).running = true → (s.after ns).doing = [] →
      (s.after ns).progress.verdict ≠ none) :
    WayOut s (ns ++ [m]) ∧ IsFrameless (s.after ns) m := by
  obtain ⟨hread, hframe⟩ := frameless_of_place h.place m
  have hmove := after_concat s ns m
  cases Course.of_move hs m with
  | advances hm hd hr ht =>
    obtain ⟨hleaves, hnarrows, hawaiting⟩ := h.advance hs hr (hv hr hd)
    rw [← ht] at hleaves hnarrows hawaiting
    refine ⟨.leaves (by rwa [hmove]) ?_, handshakePoll?_eq_none ?_, hread, hframe⟩
    · rw [hmove]
      exact narrows.trans hnarrows
    · intro hp
      exact absurd hp hawaiting
  | idles hb comes failed stage result =>
    obtain ⟨-, hawaiting, hsaid⟩ := outlook_of_brought hb h.place
    have hleaves := h.idles hb comes failed stage result
    refine ⟨.leaves (by rwa [hmove]) ?_, handshakePoll?_eq_none ?_, hread, hframe⟩
    · rw [hmove]
      exact narrows.trans (.of_comes comes hsaid)
    · intro hp
      exact hawaiting (comes.position.symm.trans hp)
  | torn hr raised comes result =>
    refine ⟨.torn ?_ ?_ ?_ ?_, handshakePoll?_eq_none ?_, hread, hframe⟩
    · rw [hmove]
      exact comes.position
    · intro hquiet
      rw [Session.raised, seen_concat, List.append_eq_nil_iff, Option.toList_eq_nil_iff] at hquiet
      exact raised hquiet.2
    · obtain ⟨w, hw, hlast⟩ := lastWords_prefix h.place
      obtain ⟨v, hv, heq⟩ := narrows w hw
      refine ⟨v, hv, ?_⟩
      rw [hmove, comes.said, ← heq]
      exact (List.prefix_append_right_inj _).mpr hlast
    · rw [hmove, result]
      exact h.result
    · intro hp
      rw [comes.position] at hp
      cases hp

theorem step (h : WayOut s ns) (hs : Sound (s.after ns)) (m : Move)
    (hv : (s.after ns).running = true → (s.after ns).doing = [] →
      (s.after ns).progress.verdict ≠ none) :
    WayOut s (ns ++ [m]) ∧ IsFrameless (s.after ns) m := by
  cases h with
  | leaves h narrows => exact of_leaves h narrows hs m hv
  | torn position raised said result =>
    have hb := Beside.of_gone hs (.inr position) m
    have hplace : (s.after ns).position.outlook ≠ [] := by
      rw [position]
      nofun
    obtain ⟨hread, hframe⟩ := frameless_of_place hplace m
    refine ⟨.torn ?_ ?_ ?_ ?_, handshakePoll?_eq_none ?_, hread, hframe⟩
    · rw [after_concat, hb.position, position]
    · intro hquiet
      rw [Session.raised, seen_concat, List.append_eq_nil_iff] at hquiet
      exact raised hquiet.1
    · rw [after_concat, hb.chronicle]
      exact said
    · rw [after_concat, hb.result]
      exact result
    · rw [hb.position]
      exact id

end WayOut

/-- What becomes of a session that is stopped on the way to an open connection. -/
structure TurnedAway (s : Session) (ns : List Move) : Prop where
  /-- It is never active, and never says farewell. -/
  unopened : (s.after ns).stage ≠ .active ∧ (s.after ns).stage ≠ .closing
  /-- What is done is the beginning of what was to be done when it was stopped, or all of it. -/
  said : ∃ w ∈ s.position.outlook, (s.after ns).chronicle <+: s.chronicle ++ w
  whole : s.raised ns = [] → (s.after ns).position.isTold = true →
    ∃ w ∈ s.position.outlook, (s.after ns).chronicle = s.chronicle ++ w
  /-- The handler hears of the end, and of nothing else. -/
  callbacks : (s.after ns).callbacks <+: [.closed .cancelled]
  polls : s.handshakePolls ns = []
  reads : s.reads ns = []
  handed : s.handed ns = []
  result : ∀ e, (s.after ns).result = some e → e = .cancelled

section Runs

variable {o : Origin} {ms ns : List Move}

/-- At every step of its own the future of a stopped session finds a verdict. -/
theorem verdict_of_asked (heard : o.session.stopPanics ms = [])
    (asked : o.session.stopCalls ms ≠ []) (hr : (o.session.after ms).running = true)
    (hd : (o.session.after ms).doing = []) : (o.session.after ms).progress.verdict ≠ none := by
  have hs := sound_after o ms
  refine (hooked_of_heard heard).verdict_ne_none hs ?_ ?_ ?_
  · by_contra hf
    exact asked ((isFired_after o ms).mp (by simpa using hf))
  · rw [hd]
    exact List.not_mem_nil
  · intro hp
    have hcan := hs.runs hr
    rw [hp] at hcan
    exact hcan

theorem wayOut_of_run (heard : o.session.stopPanics (ms ++ ns) = [])
    (asked : o.session.stopCalls ms ≠ []) (early : (o.session.after ms).position.isEarly = true) :
    WayOut (o.session.after ms) ns ∧ (o.session.after ms).handshakePolls ns = [] ∧
      (o.session.after ms).reads ns = [] ∧ (o.session.after ms).handed ns = [] := by
  induction ns using List.reverseRecOn with
  | nil => exact ⟨.leaves (.of_early early) (.refl _), rfl, rfl, rfl⟩
  | append_singleton ns m ih =>
    rw [← List.append_assoc, stopPanics_append, List.append_eq_nil_iff] at heard
    obtain ⟨hout, hpolls, hreads, hhanded⟩ := ih heard.1
    have hs := sound_after o (ms ++ ns)
    have hstill : o.session.stopCalls (ms ++ ns) ≠ [] := by
      rw [stopCalls, seen_append]
      exact fun h => asked (List.append_eq_nil_iff.mp h).1
    have hverdict := verdict_of_asked heard.1 hstill
    rw [after_append] at hs hverdict
    obtain ⟨hnext, hless⟩ := hout.step hs m hverdict
    refine ⟨hnext, ?_, ?_, ?_⟩
    · rw [handshakePolls, seen_concat, ← handshakePolls, hpolls]
      exact Option.toList_eq_nil_iff.mpr hless.poll
    · rw [reads_concat, hreads]
      exact Option.toList_eq_nil_iff.mpr hless.read
    · rw [handed, seen_concat, ← handed, hhanded]
      exact Option.toList_eq_nil_iff.mpr hless.frame

theorem turnedAway_of_run (heard : o.session.stopPanics (ms ++ ns) = [])
    (asked : o.session.stopCalls ms ≠ []) (early : (o.session.after ms).position.isEarly = true) :
    TurnedAway (o.session.after ms) ns := by
  obtain ⟨hout, hpolls, hreads, hhanded⟩ := wayOut_of_run heard asked early
  have hs := sound_after o (ms ++ ns)
  rw [after_append] at hs
  have hsaid : ∃ w ∈ (o.session.after ms).position.outlook,
      ((o.session.after ms).after ns).chronicle <+: (o.session.after ms).chronicle ++ w := by
    cases hout with
    | leaves h narrows =>
      obtain ⟨w, hw⟩ := List.exists_mem_of_ne_nil _ h.place
      obtain ⟨v, hv, heq⟩ := narrows w hw
      exact ⟨v, hv, by rw [← heq]; exact List.prefix_append _ _⟩
    | torn position raised said result => exact said
  refine ⟨?_, hsaid, ?_, ?_, hpolls, hreads, hhanded, ?_⟩
  · cases hout with
    | leaves h narrows => exact h.unopened
    | torn position raised said result =>
      have hfits := hs.fits
      rw [position] at hfits
      have hclosed : ((o.session.after ms).after ns).stage = .closed := hfits
      rw [hclosed]
      exact ⟨nofun, nofun⟩
  · intro hquiet htold
    cases hout with
    | leaves h narrows =>
      obtain ⟨w, hw⟩ := List.exists_mem_of_ne_nil _ h.place
      have hend : w = [] := Position.eq_nil_of_isTold htold hw
      obtain ⟨v, hv, heq⟩ := narrows w hw
      rw [hend, List.append_nil] at heq
      exact ⟨v, hv, heq⟩
    | torn position raised said result => exact absurd hquiet raised
  · obtain ⟨w, hw, hprefix⟩ := hsaid
    obtain ⟨v, hv, hsilent⟩ := Position.prologue_of_early early
    have hcalls := hprefix.filter Event.isCallback
    rw [List.filter_append, chronicle_of_prologue hv, hsilent, List.nil_append] at hcalls
    rw [callbacks_eq_filter]
    exact hcalls.trans (Position.callbacks_of_outlook hw)
  · cases hout with
    | leaves h narrows => exact h.result
    | torn position raised said result => exact result

end Runs

/-! ### A handshake that fails -/

/-- How far a session has come whose handshake failed. -/
inductive Refuses (e : Ending) (t : Session) : Prop
  /-- The failure was reported, and the handler has still to return. -/
  | reported (position : t.position = .refusing e) (running : t.running = true)
      (said : t.chronicle = [.handshake, .error e]) (failed : t.progress.verdict = some .failed)
      (result : t.result = none)
  /-- The failure is recorded, and the end is to be reported. -/
  | recorded (position : t.position = .finishing true) (running : t.running = true)
      (said : t.chronicle = [.handshake, .error e]) (failed : t.progress.verdict = some .failed)
      (failure : t.failure = some e) (result : t.result = none)
  /-- The end was reported, and the handler has still to return. -/
  | told (position : t.position = .concluding e true) (running : t.running = true)
      (said : t.chronicle = [.handshake, .error e, .closed e]) (result : t.result = none)
  /-- The future has resolved to the failure. -/
  | resolved (position : t.position = .over) (running : t.running = false)
      (said : t.chronicle = [.handshake, .error e, .closed e]) (result : t.result = some e)

namespace Refuses

variable {e : Ending}

theorem going (h : Refuses e t) :
    t.running = true ∨ t.position = .neverRun ∨ t.position = .over := by
  cases h with
  | reported _ running => exact .inl running
  | recorded _ running => exact .inl running
  | told _ running => exact .inl running
  | resolved position => exact .inr (.inr position)

/-- Whatever others do meanwhile, the session has come as far as it had. -/
theorem beside {u : Session} (h : Refuses e t) (hb : Beside t u) : Refuses e u := by
  have hp := hb.position
  have hr := hb.running
  have hsaid := hb.chronicle
  have hresult := hb.result
  cases h with
  | reported position running said failed result =>
    exact .reported (hp.trans position) (hr.trans running) (hsaid.trans said)
      (hb.failed.mpr failed) (hresult.trans result)
  | recorded position running said failed failure result =>
    exact .recorded (hp.trans position) (hr.trans running) (hsaid.trans said)
      (hb.failed.mpr failed) (hb.failure.trans failure) (hresult.trans result)
  | told position running said result =>
    exact .told (hp.trans position) (hr.trans running) (hsaid.trans said) (hresult.trans result)
  | resolved position running said result =>
    exact .resolved (hp.trans position) (hr.trans running) (hsaid.trans said) (hresult.trans result)

/-- The failure is recorded, the end is reported with it, and the future resolves to it. -/
theorem advance (h : Refuses e t) (hr : t.running = true) : Refuses e t.advance := by
  cases h with
  | reported position running said failed result =>
    have hadvance : t.advance = t.record e (.finishing true) := by rw [Session.advance, position]
    rw [hadvance]
    exact .recorded rfl running said failed rfl result
  | recorded position running said failed failure result =>
    have hreason : t.reason = e := by rw [reason, failed, failure]; rfl
    have hadvance : t.advance = t.conclude true := by rw [Session.advance, position]
    rw [hadvance, conclude_eq, hreason, settleProgress_eq]
    refine .told rfl running ?_ result
    exact (chronicle_of_cons (e := .closed e) rfl rfl).trans (by rw [said]; rfl)
  | told position running said result =>
    have hadvance : t.advance = t.finish e true := by rw [Session.advance, position]
    rw [hadvance, finish_eq, unhookEngine_eq]
    exact .resolved rfl rfl said rfl
  | resolved position running =>
    rw [running] at hr
    cases hr

theorem said_prefix (h : Refuses e t) :
    t.lastWords = [] ∧ t.chronicle <+: [.handshake, .error e, .closed e] := by
  unfold lastWords
  cases h with
  | reported position running said | recorded position running said =>
    rw [position, said]
    exact ⟨rfl, [.closed e], rfl⟩
  | told position running said | resolved position running said =>
    rw [position, said]
    exact ⟨rfl, [], rfl⟩

theorem run (h : Refuses e t) (hs : Sound t) {ns : List Move} (quiet : t.raised ns = []) :
    Refuses e (t.after ns) := by
  induction ns generalizing t with
  | nil => exact h
  | cons m ns ih =>
    rw [raised, seen, List.append_eq_nil_iff, Option.toList_eq_nil_iff] at quiet
    refine ih ?_ (hs.move m) quiet.2
    obtain ⟨-, -, hr, hadvance⟩ | hb := Beside.of_move (m := m) hs h.going fun _ => quiet.1
    · rw [hadvance]
      exact h.advance hr
    · exact h.beside hb

/-- The handler hears of the failure and of the end at most, even if a callback panics. -/
theorem said_run (h : Refuses e t) (hs : Sound t) (ns : List Move) :
    (t.after ns).chronicle <+: [.handshake, .error e, .closed e] := by
  have hrun := after_induction (s := t)
    (P := fun _ u => Sound u ∧ (Refuses e u ∨
      u.position = .over ∧ u.chronicle <+: [.handshake, .error e, .closed e])) ?_ ?_ ns
  · exact hrun.2.elim (fun h => h.said_prefix.2) (·.2)
  · exact ⟨hs, .inl h⟩
  · rintro ms m ⟨hu, h | ⟨hover, hsaid⟩⟩
    · refine ⟨hu.move m, ?_⟩
      by_cases hpanic : (t.after ms).running = true ∧ (t.after ms).raised? m ≠ none
      · -- the panic takes the future with it, which has nothing more to say
        obtain ⟨hwords, hsaid⟩ := h.said_prefix
        obtain ⟨hcomes, -⟩ := comes_of_panic hpanic.1 hpanic.2
        refine .inr ⟨hcomes.position, ?_⟩
        rwa [hcomes.said, hwords, List.append_nil]
      · obtain ⟨-, -, hr, hadvance⟩ | hb := Beside.of_move (m := m) hu h.going
          fun hr => by_contra fun hne => hpanic ⟨hr, hne⟩
        · rw [hadvance]
          exact .inl (h.advance hr)
        · exact .inl (h.beside hb)
    · have hb := Beside.of_gone hu (.inr hover) m
      exact ⟨hu.move m, .inr ⟨hb.position.trans hover, by rwa [hb.chronicle]⟩⟩

end Refuses

/-- A future that has reported that the handshake failed goes on to its end. -/
theorem over_of_refusing (perm : ∀ l, (s.order l).Perm l) {e : Ending}
    (hp : s.position = .refusing e) (hr : s.running = true) :
    ∃ n, (s.after (.replicate n .tick)).position = .over := by
  obtain ⟨n, hdone, ⟨hpos, hrun⟩ | ⟨hpos, -⟩⟩ := callbacks_end perm
  · have htick : (s.after (.replicate n .tick)).move .tick
        = (s.after (.replicate n .tick)).record e (.finishing true) := by
      rw [tick_of_running hdone (hrun.trans hr), advance, hpos, hp]
    have hperm : ∀ l, (((s.after (.replicate n .tick)).move .tick).order l).Perm l := by
      rw [order_move, order_after]
      exact perm
    obtain ⟨k, hover, -⟩ := over_of_finishing hperm (by rw [htick]; rfl) (by
      rw [htick]
      exact hrun.trans hr)
    refine ⟨n + (1 + k), ?_⟩
    rw [← List.replicate_append_replicate, ← List.replicate_append_replicate, after_append,
      after_append]
    exact hover
  · exact ⟨n, hpos⟩

/-- A session whose handshake failed ends, wherever it is. -/
theorem Refuses.ends {e : Ending} (h : Refuses e t) (perm : ∀ l, (t.order l).Perm l) :
    ∃ n, (t.after (.replicate n .tick)).position = .over := by
  cases h with
  | reported position running => exact over_of_refusing perm position running
  | recorded position running =>
    obtain ⟨n, hover, -⟩ := over_of_finishing perm position running
    exact ⟨n, hover⟩
  | told position running =>
    obtain ⟨n, hover, -⟩ := over_of_concluding perm position running
    exact ⟨n, hover⟩
  | resolved position => exact ⟨0, position⟩

/-! ### Every run -/

section Unasked

variable {o : Origin} {ms : List Move}

theorem unjudged_of_unasked (unasked : o.session.stopCalls ms = []) {w : List Event}
    (hp : (o.session.after ms).position.prologue? = some w) :
    (o.session.after ms).progress.verdict = none := by
  by_contra hv
  have hstage := (sound_after o ms).stage_of_prologue hp
  rw [closed_of_unasked unasked hv] at hstage
  exact hstage.elim nofun nofun

/-- When the stream is open, a session that nobody stops becomes active, and the handler hears of
that first. -/
theorem active_of_opened (unasked : o.session.stopCalls ms = [])
    (hp : (o.session.after ms).position = .opened) (hd : (o.session.after ms).doing = []) :
    (o.session.after (ms ++ [.tick])).stage = .active ∧
      (o.session.after (ms ++ [.tick])).callbacks = [.connected (o.session.after ms).name] := by
  have hs := sound_after o ms
  have hprologue : (o.session.after ms).position.prologue? = some [.handshake] := by rw [hp]; rfl
  have hchronicle := chronicle_of_prologue hprologue
  have hv := unjudged_of_unasked unasked hprologue
  have hr := hs.running_of_transient (by rw [hp]; exact id)
  have hcomes : Comes (o.session.after ms) (o.session.after ms).advance
      (.active .receive .reading .asking) [.connected (o.session.after ms).name] := by
    refine comes_of_opening hs ?_
    simp [opening?, hp, hv]
  rw [after_concat, tick_of_running hd hr]
  refine ⟨?_, ?_⟩
  · rw [advance, hp]
    simp [enterActive, goto, callback, emit, hv, stage]
  · rw [callbacks_eq_filter, hcomes.said, hchronicle]
    rfl

/-- A session that nobody stops is active after a handshake that succeeds. -/
theorem active_of_unasked (unasked : o.session.stopCalls ms = [])
    (hp : (o.session.after ms).position = .awaiting) (hd : (o.session.after ms).doing = [])
    (ho : (o.session.after ms).link.outcome = some (.ok ())) :
    (o.session.after (ms ++ [.tick, .tick])).stage = .active ∧
      (o.session.after (ms ++ [.tick, .tick])).callbacks
        = [.connected (o.session.after ms).name] := by
  have hr := (sound_after o ms).running_of_transient (by rw [hp]; exact id)
  have hopens : o.session.after (ms ++ [.tick]) = { o.session.after ms with
      link := { (o.session.after ms).link with outcome := none } }.goto .opened := by
    rw [after_concat, tick_of_running hd hr, advance, hp]
    show (o.session.after ms).awaitHandshake = _
    rw [awaitHandshake, ho]
  have hunasked : o.session.stopCalls (ms ++ [.tick]) = [] := by
    rw [stopCalls_concat, unasked, stopCall?, performed?, hd]
    rfl
  have hactive := active_of_opened hunasked (by rw [hopens]; rfl) (by rw [hopens]; exact hd)
  rw [List.append_assoc] at hactive
  rw [hopens] at hactive
  exact hactive

/-- A session that nobody stops reports that its handshake failed. -/
theorem refuses_of_unasked (unasked : o.session.stopCalls ms = [])
    (hp : (o.session.after ms).position = .awaiting) (hd : (o.session.after ms).doing = [])
    {text : String} (ho : (o.session.after ms).link.outcome = some (.error text)) :
    Refuses (.transport .handshake text) (o.session.after (ms ++ [.tick])) := by
  have hs := sound_after o ms
  have hprologue : (o.session.after ms).position.prologue? = some [.handshake] := by rw [hp]; rfl
  have hv := unjudged_of_unasked unasked hprologue
  have hr := hs.running_of_transient (by rw [hp]; exact id)
  have hcomes : Comes (o.session.after ms) (o.session.after (ms ++ [.tick]))
      (.refusing (.transport .handshake text)) [.error (.transport .handshake text)] := by
    rw [after_concat, tick_of_running hd hr]
    refine comes_of_opening hs ?_
    simp [opening?, hp, ho, hv]
  have hs' := sound_after o (ms ++ [.tick])
  have hfits := hs'.fits
  rw [hcomes.position] at hfits
  refine .reported hcomes.position ?_ ?_ hfits.1 ?_
  · exact hs'.running_of_transient (by rw [hcomes.position]; exact id)
  · rw [hcomes.said, chronicle_of_prologue hprologue]
    rfl
  · by_contra hne
    have hover := over_of_result hne
    rw [hcomes.position] at hover
    cases hover

end Unasked

/--
**A stop keeps a session from opening, at whatever moment it comes.**

As long as the session is not active it has begun the handshake, if the future is that far, and done
nothing else; and in every step of its own it goes by the table.  Stopped then, it does what its
`outlook` says: before the first poll the handshake is never begun; later it is not polled again and
is dropped before the end is reported; in the poll in which it succeeds the stream is closed, and
whether that fails is not reported; in the poll in which it fails that is not reported.  The session
is never active, no frame is read or written, the handler hears of the end alone, and the result is
that the session was cancelled.

A panic that is raised while the engine has still to learn of the stop can take the stop away.

Without a stop the session is active after a handshake that succeeds, and the handler hears of that
first.  If the handshake fails, the handler hears of the failure and of the end, and of nothing
else; and if a callback panics then, of no more than that.
-/
theorem handshake_of_run (o : Origin) (ms ns : List Move) :
    (∀ w, (o.session.after ms).position.prologue? = some w →
      (o.session.after ms).chronicle = w) ∧
    (o.session.stopPanics ms = [] → (o.session.after ms).doing = [] →
      (o.session.after ms).running = true → ∀ q told,
      (o.session.after ms).opening? (o.session.after ms).stopSignal.isFired = some (q, told) →
        Comes (o.session.after ms) (o.session.after (ms ++ [.tick])) q told) ∧
    (o.session.stopPanics (ms ++ ns) = [] → o.session.stopCalls ms ≠ [] →
      (o.session.after ms).position.isEarly = true → TurnedAway (o.session.after ms) ns) ∧
    (o.session.stopCalls ms = [] → (o.session.after ms).doing = [] →
      ((o.session.after ms).position = .opened →
        (o.session.after (ms ++ [.tick])).stage = .active ∧
        (o.session.after (ms ++ [.tick])).callbacks = [.connected (o.session.after ms).name]) ∧
      ((o.session.after ms).position = .awaiting →
        (o.session.after ms).link.outcome = some (.ok ()) →
        (o.session.after (ms ++ [.tick, .tick])).stage = .active ∧
        (o.session.after (ms ++ [.tick, .tick])).callbacks
          = [.connected (o.session.after ms).name]) ∧
      ((o.session.after ms).position = .awaiting →
        ∀ text, (o.session.after ms).link.outcome = some (.error text) → ∀ ls,
          (o.session.after (ms ++ .tick :: ls)).callbacks
            <+: [.error (.transport .handshake text), .closed (.transport .handshake text)] ∧
          ((o.session.after (ms ++ [.tick])).raised ls = [] →
            Refuses (.transport .handshake text) (o.session.after (ms ++ .tick :: ls)) ∧
            ∃ n, (o.session.after (ms ++ .tick :: ls ++ .replicate n .tick)).position
              = .over))) := by
  have hs := sound_after o ms
  refine ⟨fun w hw => chronicle_of_prologue hw, ?_, turnedAway_of_run, ?_⟩
  · intro heard hd hr q told hopening
    obtain ⟨w, hw, -⟩ := prologue_of_opening hopening
    have hstopped : (o.session.after ms).progress.verdict.isSome
        = (o.session.after ms).stopSignal.isFired := by
      refine judged_iff_fired heard ?_ hw ?_
      · rw [hd]
        exact List.not_mem_nil
      · intro hp
        have hcan := hs.runs hr
        rw [hp] at hcan
        exact hcan
    rw [after_concat, tick_of_running hd hr]
    exact comes_of_opening hs (by rwa [hstopped])
  · intro unasked hd
    refine ⟨fun hp => active_of_opened unasked hp hd,
      fun hp => active_of_unasked unasked hp hd, ?_⟩
    intro hp text ho ls
    have hsplit : ms ++ .tick :: ls = ms ++ [.tick] ++ ls := by simp
    have hfirst := refuses_of_unasked unasked hp hd ho
    refine ⟨?_, fun quiet => ?_⟩
    · rw [hsplit, after_append, callbacks_eq_filter]
      exact (hfirst.said_run (sound_after o _) ls).filter Event.isCallback
    have hrefuses : Refuses (.transport .handshake text) (o.session.after (ms ++ .tick :: ls)) := by
      rw [hsplit, after_append]
      exact hfirst.run (sound_after o _) quiet
    have perm : ∀ l, ((o.session.after (ms ++ .tick :: ls)).order l).Perm l := by
      rw [order_after]
      exact o.order_perm
    obtain ⟨n, hover⟩ := hrefuses.ends perm
    exact ⟨hrefuses, n, by rwa [after_append]⟩

/-- A session that is stopped by its own handshake, whose connection cannot be closed. -/
def Origin.stillborn : Origin where
  link := { closeFault := some "reset" }
  opening := [.stop]

/-- The first poll of its future, until the handshake has called for a stop. -/
def stoppedInPoll : List Move :=
  [.serve, .poll, .tick, .tick, .tick]

/-- The handshake succeeds in the poll in which the session is stopped.  The handler hears neither
of that nor that the connection could not be closed. -/
theorem turnedAway_of_stillborn :
    TurnedAway (Origin.stillborn.session.after stoppedInPoll) (.replicate 6 .tick) ∧
      (Origin.stillborn.session.after (stoppedInPoll ++ .replicate 6 .tick)).chronicle
        = [.handshake, .closed .cancelled] ∧
      (Origin.stillborn.session.after (stoppedInPoll ++ .replicate 6 .tick)).result
        = some .cancelled := by
  obtain ⟨-, -, hturned, -⟩ :=
    handshake_of_run Origin.stillborn stoppedInPoll (.replicate 6 .tick)
  exact ⟨hturned (by decide +kernel) (by decide +kernel) (by decide +kernel), by decide +kernel,
    by decide +kernel⟩

/-- The session is stopped before its first poll, and a callback on its stop token panics. -/
def stoppedInVain : List Move :=
  [.act (.listen 1 [.panic "boom"]), .serve, .act .stop, .tick, .tick]

/-- The handshake fails, and the handler panics when it hears of that. -/
def Origin.unreported : Origin where
  link := { outcome := some (.error "no") }
  handler := { onError := fun _ => [.panic "boom"] }

/-- A stop that a panic takes away does not keep a session from opening; and a handler that panics
when it hears that the handshake failed never hears of the end. -/
theorem opens_of_stoppedInVain :
    (Origin.backwards.session.stopCalls stoppedInVain = [none] ∧
      (Origin.backwards.session.after stoppedInVain).position = .spawned ∧
      (Origin.backwards.session.after (stoppedInVain ++ .poll :: .replicate 4 .tick)).stage
        = .active ∧
      (Origin.backwards.session.after (stoppedInVain ++ .poll :: .replicate 4 .tick)).chronicle
        = [.handshake, .connected "session"]) ∧
    (Origin.unreported.session.after (.serve :: .poll :: .replicate 5 .tick)).position = .over ∧
    (Origin.unreported.session.after (.serve :: .poll :: .replicate 5 .tick)).callbacks
      = [.error (.transport .handshake "no")] := by
  decide +kernel

end Dialogue.Session
