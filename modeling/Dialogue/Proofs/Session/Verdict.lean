/-
The first terminal condition wins.

Three things can end a session: the engine learns of a stop, the future observes a failure, or the
future is dropped before it has finished.  All of them may happen in one run, in any order and more
than once.  `conditions` lists them as the session observes them, whether or not they still matter.

Two cells record the first: the verdict, at once, and the failure, only when the handler has
returned from hearing of it.  `Observes` says what a single step does to the verdict and to the
errors that were reported; from there on it is arithmetic of lists that both agree with the head of
the conditions.  That the failure itself agrees was shown with the report.
-/
import Dialogue.Proofs.Session.Callbacks
import Dialogue.Proofs.Session.Stopping

namespace Dialogue.Session

/-! ### Conditions -/

/-- The verdict on a session that ended so. -/
def Verdict.on : Ending → Verdict
  | .cancelled => .cancelled
  | .peerClosed | .transport _ _ => .failed

/-- What the future observes in its next step that ends the session, or would if nothing had ended
it: that it was dropped, or a failure. -/
def observed? (s : Session) : Option Ending :=
  match s.position with
  | .finishing false => some .cancelled
  | _ => s.fault?

/-- What is observed in a move that ends the session, or would if nothing had ended it. -/
def condition? (s : Session) : Move → Option Ending
  | .tick =>
    match s.doing with
    | .engineStop :: _ => some .cancelled
    | _ :: _ => none
    | [] => if s.running then s.observed? else none
  | _ => none

/-- The terminal conditions of a run, in the order in which the session observes them. -/
def conditions (s : Session) (ms : List Move) : List Ending :=
  seen move condition? s ms

/-- The failure that the handler is told of. -/
def Event.error? : Event → Option Ending
  | error e => some e
  | _ => none

/-- The failures that were reported to the handler. -/
def errors (s : Session) : List Ending :=
  s.journal.filterMap Event.error?

/-- Among conditions the failures. -/
def failures (cs : List Ending) : List Ending :=
  cs.filter (· ≠ .cancelled)

theorem errors_of_log {s t : Session} (h : t.log = s.log) : t.errors = s.errors :=
  filterMap_journal_of_log Event.error? h

theorem errors_of_cons {s t : Session} {e : Event} (h : t.log = e :: s.log) :
    t.errors = s.errors ++ e.error?.toList :=
  filterMap_journal_of_cons Event.error? h

theorem errors_of_silent {s t : Session} {e : Event} (h : t.log = e :: s.log)
    (he : e.error? = none) : t.errors = s.errors := by
  rw [errors_of_cons h, he]
  exact List.append_nil _

theorem errors_aside {s t : Session} (ha : Aside s t) : t.errors = s.errors := by
  rcases ha.log with hl | ⟨stage, x, b, hl⟩
  · exact errors_of_log hl
  · exact errors_of_silent hl rfl

/-! ### One step -/

/-- A step in which a condition is observed, or none: the first condition gives the verdict and, if
it is a failure, is reported; any other changes nothing. -/
structure Observes (s t : Session) (c : Option Ending) : Prop where
  verdict : t.progress.verdict = s.progress.verdict.or (c.map .on)
  errors : t.errors = s.errors ++ if s.progress.verdict = none then failures c.toList else []
  /-- Every failure closes the session. -/
  closes : ∀ e, c = some e → e ≠ .cancelled → t.stage = .closed

namespace Observes

variable {s t : Session}

theorem nothing (verdict : t.progress.verdict = s.progress.verdict) (errors : t.errors = s.errors) :
    Observes s t none := by
  refine ⟨?_, ?_, nofun⟩
  · rw [verdict, Option.map_none, Option.or_none]
  · rw [errors]
    split <;> exact (List.append_nil _).symm

/-- Somebody asked for the end. -/
theorem cancelled (verdict : t.progress.verdict = some (s.progress.verdict.getD .cancelled))
    (errors : t.errors = s.errors) : Observes s t (some .cancelled) := by
  refine ⟨?_, ?_, fun e he hne => absurd (Option.some.inj he).symm hne⟩
  · rw [verdict]
    cases s.progress.verdict <;> rfl
  · rw [errors]
    split <;> exact (List.append_nil _).symm

theorem failed {e : Ending} (hne : e ≠ .cancelled)
    (verdict : t.progress.verdict = some (s.progress.verdict.getD .failed))
    (errors : t.errors = s.errors ++ if s.progress.verdict = none then [e] else [])
    (stage : t.stage = .closed) : Observes s t (some e) := by
  have hon : Verdict.on e = .failed := by
    cases e with
    | cancelled => exact absurd rfl hne
    | peerClosed => rfl
    | transport phase text => rfl
  refine ⟨?_, ?_, fun _ _ _ => stage⟩
  · rw [verdict, Option.map_some, hon]
    cases s.progress.verdict <;> rfl
  · rw [errors]
    split
    · simp [failures, hne]
    · rfl

end Observes

/-- A failure is observed in the steps of that kind and in no other. -/
theorem observed?_of_fault {s : Session} {e : Ending} (hf : s.fault? = some e) :
    s.observed? = some e := by
  have hp := Sound.position_of_fault hf
  unfold observed?
  split
  · next hpos =>
    rcases hp with hp | ⟨tx, hp⟩ | ⟨rx, tx, hp, -⟩ <;> rw [hpos] at hp <;> cases hp
  · exact hf

theorem observed?_of_goes {s : Session} {p : Position} (h : Goes s p) : s.observed? = none := by
  cases h <;> simp_all [observed?, fault?, receiveFault?, transmitFault?]

theorem observed?_of_sleeps {s : Session} {p : Position} (h : Sleeps s p) : s.observed? = none := by
  cases h <;> simp_all [observed?, fault?, transmitFault?]

theorem observed?_of_shuts {s : Session} {p : Position} (h : Shuts s p) : s.observed? = none := by
  cases h <;> simp_all [observed?, fault?, transmitFault?]

theorem observes_advances {s t : Session} (hs : Sound s) (hr : s.running = true)
    (ha : Advances s t) : Observes s t s.observed? := by
  have quiet : s.observed? = none → t.progress.verdict = s.progress.verdict →
    t.errors = s.errors → Observes s t s.observed? := by
    intro hn hv he
    rw [hn]
    exact .nothing hv he
  cases ha with
  | rests hp =>
    have hcan := hs.runs hr
    rcases hp with hp | hp | hp <;> rw [hp] at hcan <;> exact absurd hcan id
  | goes hg => exact quiet (observed?_of_goes hg) rfl rfl
  | sleeps hg => exact quiet (observed?_of_sleeps hg) rfl rfl
  | shuts hg =>
    rw [wireClosed_eq] at quiet ⊢
    exact quiet (observed?_of_shuts hg) rfl (errors_of_silent rfl rfl)
  | prepares hp hv => exact quiet (by simp [observed?, fault?, hp]) rfl rfl
  | begins hp hh => exact quiet (by simp [observed?, fault?, hp]) rfl (errors_of_silent rfl rfl)
  | abandons hp hh =>
    refine quiet ?_ rfl (errors_of_silent rfl rfl)
    rcases hp with hp | hp | ⟨hp, ho⟩ <;> simp_all [observed?, fault?]
  | hopes hp ho hh => exact quiet (by simp [observed?, fault?, hp, ho]) rfl rfl
  | opens hp ho => exact quiet (by simp [observed?, fault?, hp, ho]) rfl rfl
  | @fails e hf link =>
    rw [observed?_of_fault hf]
    refine .failed (Told.ne_cancelled_of_fault hf) (by rw [fail_eq]; rfl) ?_
      (by rw [stage, fail_eq])
    by_cases hv : s.progress.verdict = none
    · rw [if_pos hv]
      refine errors_of_cons (e := .error e) ?_
      rw [fail_eq]
      exact if_pos hv
    · rw [if_neg hv, List.append_nil]
      refine errors_of_log ?_
      rw [fail_eq]
      exact if_neg hv
  | records hp =>
    refine quiet ?_ rfl rfl
    unfold Position.reported? at hp
    split at hp <;> simp_all [observed?, fault?, transmitFault?]
  | turnsAway hp hv => exact quiet (by simp [observed?, fault?, hp]) rfl rfl
  | connects hp hv => exact quiet (by simp [observed?, fault?, hp]) rfl (errors_of_silent rfl rfl)
  | hands hp hn hl =>
    exact quiet (by simp [observed?, fault?, receiveFault?, hp, hn, hl]) rfl
      (errors_of_silent rfl rfl)
  | listens hp hn hl he =>
    exact quiet (by simp [observed?, fault?, receiveFault?, hp, hn, hl, he]) rfl rfl
  | asks hp hw =>
    rw [passOn_eq] at quiet ⊢
    exact quiet (by simp [observed?, fault?, transmitFault?, hp]) rfl rfl
  | isDenied hp hw => exact absurd hw (hs.wait?_ne_none hp)
  | takes hp ho => exact quiet (by simp [observed?, fault?, transmitFault?, hp]) rfl rfl
  | parts hp ho hd => exact quiet (by simp [observed?, fault?, transmitFault?, hp]) rfl rfl
  | idles hp ho => exact quiet (by simp [observed?, fault?, transmitFault?, hp]) rfl rfl
  | writes hp hl =>
    exact quiet (by simp [observed?, fault?, transmitFault?, hp, hl]) rfl (errors_of_silent rfl rfl)
  | hasWritten hp hl hh =>
    exact quiet (by simp [observed?, fault?, transmitFault?, hp, hl]) rfl rfl
  | announces hp hl =>
    exact quiet (by simp [observed?, fault?, transmitFault?, hp, hl]) rfl (errors_of_silent rfl rfl)
  | lingers hp hl => exact quiet (by simp [observed?, fault?, transmitFault?, hp]) rfl rfl
  | @concludes resolves hp =>
    have hlog : (s.conclude resolves).errors = s.errors := by
      refine errors_of_silent (e := .closed s.reason) ?_ rfl
      rw [conclude_eq]
    have hverdict : (s.conclude resolves).progress.verdict
        = some (s.progress.verdict.getD .cancelled) := by
      rw [conclude_eq, settleProgress_eq]
      rfl
    cases resolves with
    | false =>
      have hobs : s.observed? = some .cancelled := by simp [observed?, hp]
      rw [hobs]
      exact .cancelled hverdict hlog
    | true =>
      -- a future that resolves was ended before
      have hfits := hs.fits
      rw [hp] at hfits
      obtain ⟨v, hv⟩ := Option.ne_none_iff_exists'.mp (hfits rfl)
      refine quiet (by simp [observed?, fault?, hp]) ?_ hlog
      rw [hverdict, hv]
      rfl
  | finishes hp =>
    rw [finish_eq, unhookEngine_eq] at quiet ⊢
    exact quiet (by simp [observed?, fault?, hp]) rfl rfl

/-- The condition that a deed is. -/
def Deed.condition? : Deed → Option Ending
  | engineStop => some .cancelled
  | act _ | heard _ => none

theorem observes_perform {s : Session} (d : Deed) (quiet : d.raised? = none) :
    Observes s (s.perform d) d.condition? := by
  cases d with
  | act a =>
    obtain ⟨message, -, ha⟩ | ⟨message, rfl, -⟩ | ⟨-, ha⟩ := act_cases s a
    · rw [perform, ha, send_eq]
      split <;> exact .nothing rfl rfl
    · cases quiet
    · obtain ⟨r, hr⟩ := ha.progress
      exact .nothing (by rw [perform, hr]) (errors_aside ha)
  | engineStop =>
    refine .cancelled ?_ ?_
    · rw [perform, progress_onStop]
      rfl
    · rw [perform, onStop_eq]
      rfl
  | heard id => exact .nothing rfl rfl

/-- **In every move the session observes the condition of the move, and nothing else.** -/
theorem observes_move {s : Session} (hs : Sound s) (m : Move)
    (quiet : s.raised? m = none) : Observes s (s.move m) (s.condition? m) := by
  by_cases hm : m = .tick
  · subst hm
    cases hd : s.doing with
    | cons d rest =>
      rw [raised?_of_doing hd] at quiet
      rw [tick_of_cons hd]
      have hc : s.condition? .tick = d.condition? := by
        rw [condition?, hd]
        cases d <;> rfl
      rw [hc]
      have h := observes_perform (s := { s with doing := rest }) d quiet
      exact ⟨h.verdict, h.errors, h.closes⟩
    | nil =>
      cases hr : s.running with
      | true =>
        rw [tick_of_running hd hr]
        have hc : s.condition? .tick = s.observed? := by
          rw [condition?, hd, hr]
          rfl
        rw [hc]
        exact observes_advances hs hr (advances s)
      | false =>
        rw [tick_of_quiet hd hr]
        have hc : s.condition? .tick = none := by
          rw [condition?, hd, hr]
          rfl
        rw [hc]
        exact .nothing rfl rfl
  · have hc : s.condition? m = none := by
      cases m with
      | tick => exact absurd rfl hm
      | _ => rfl
    rw [hc]
    have hmoves := moves s m
    generalize ht : s.move m = t at hmoves ⊢
    cases hmoves with
    | stays => exact .nothing rfl rfl
    | acts a => exact observes_perform (.act a) quiet
    | does hd => exact absurd rfl hm
    | advances hd hr ha => exact absurd rfl hm
    | drops hr hp =>
      rw [releaseOperations_eq]
      refine .nothing rfl ?_
      show Session.errors { s with log := s.lastWords ++ s.log } = _
      unfold lastWords
      split <;> first | rfl | exact errors_of_silent rfl rfl
    | disowns hp =>
      rw [unhookEngine_eq]
      exact .nothing rfl rfl
    | _ => exact .nothing rfl rfl

/-! ### Every run -/

theorem conditions_append (s : Session) (ms ns : List Move) :
    s.conditions (ms ++ ns) = s.conditions ms ++ (s.after ms).conditions ns :=
  seen_append move condition? s ms ns

/-- The first condition stays the first. -/
theorem head?_conditions_append {s : Session} {ms : List Move} {e : Ending}
    (h : (s.conditions ms).head? = some e) (ns : List Move) :
    (s.conditions (ms ++ ns)).head? = some e := by
  rw [conditions_append, List.head?_append, h]
  rfl

/-- When closing fails, the session has been stopped. -/
theorem ne_none_of_close {s : Session} {m : Move} {text : String} (hs : Sound s)
    (h : s.condition? m = some (.transport .close text)) : s.progress.verdict ≠ none := by
  have hfault : s.fault? = some (.transport .close text) := by
    unfold condition? at h
    split at h
    · split at h
      · cases h
      · cases h
      · split at h
        · unfold observed? at h
          split at h
          · cases h
          · exact h
        · cases h
    · cases h
  have hf := hs.fits
  unfold fault? at hfault
  split at hfault
  · split at hfault <;> cases hfault
  · unfold receiveFault? at hfault
    split at hfault
    · cases hfault
    · split at hfault
      · cases hfault
      · cases hfault
      · split at hfault <;> cases hfault
  · next rx tx hp =>
    intro hv
    rw [hp] at hf
    have hopen := (hf.2.1 hv).2
    cases tx <;> simp [transmitFault?] at hfault hopen
  · cases hfault

/-- The verdict and the errors that were reported, said by the first condition. -/
structure Decided (cs : List Ending) (s : Session) : Prop where
  verdict : s.progress.verdict = cs.head?.map .on
  errors : s.errors = failures cs.head?.toList
  notClose : ∀ text, cs.head? ≠ some (.transport .close text)

theorem Decided.step {cs : List Ending} {s t : Session} {m : Move} (h : Decided cs s)
    (hs : Sound s) (ho : Observes s t (s.condition? m)) :
    Decided (cs ++ (s.condition? m).toList) t := by
  have hhead : (cs ++ (s.condition? m).toList).head? = cs.head?.or (s.condition? m) := by
    rw [List.head?_append]
    cases s.condition? m <;> rfl
  cases hc : cs.head? with
  | some e =>
    have hv : s.progress.verdict = some (.on e) := by rw [h.verdict, hc]; rfl
    rw [hc, Option.some_or] at hhead
    refine ⟨?_, ?_, ?_⟩
    · rw [ho.verdict, hv, hhead]
      rfl
    · rw [ho.errors, hv, if_neg nofun, List.append_nil, h.errors, hc, hhead]
    · rw [hhead, ← hc]
      exact h.notClose
  | none =>
    have hv : s.progress.verdict = none := by rw [h.verdict, hc]; rfl
    have he : s.errors = [] := by rw [h.errors, hc]; rfl
    rw [hc, Option.none_or] at hhead
    refine ⟨?_, ?_, ?_⟩
    · rw [ho.verdict, hv, hhead]
      rfl
    · rw [ho.errors, hv, if_pos rfl, he, hhead]
      rfl
    · intro text hm
      rw [hhead] at hm
      exact ne_none_of_close hs hm hv

theorem decided_after {o : Origin} {ms : List Move} (calm : (o.session.after ms).panicked = none) :
    Decided (o.session.conditions ms) (o.session.after ms) := by
  refine calm_induction (P := fun ms s => Decided (o.session.conditions ms) s) ?_ ?_ calm
  · exact ⟨rfl, rfl, nofun⟩
  · rintro ms s m rfl hs hcalm h
    rw [conditions_append]
    have hstep := h.step hs (observes_move hs m (raised?_eq_none hcalm))
    have hlist : ((o.session.after ms).condition? m).toList
        = (o.session.after ms).conditions [m] := by
      simp [conditions, seen]
    rwa [hlist] at hstep

theorem Told.errors {s : Session} {r : Report} (h : Told s r) : s.errors = r.fault.toList := by
  have hcalls : s.errors = s.callbacks.filterMap Event.error? := by
    rw [Session.errors, Session.callbacks, List.filterMap_filter]
    refine congrArg (fun f => List.filterMap f s.journal) ?_
    funext e
    cases e <;> rfl
  have hgreeting : r.welcome.filterMap Event.error? = [] := by
    unfold Report.welcome
    split <;> simp [Event.error?]
  rw [hcalls, h.callbacks, Report.prelude, List.filterMap_append, List.filterMap_append, hgreeting]
  cases r.fault <;> split <;> rfl

/-- The reason of the report is the first condition. -/
theorem Told.reason_eq_head {s : Session} {r : Report} {cs : List Ending} {e : Ending}
    (h : Told s r) (hd : Decided cs s) (he : cs.head? = some e) : r.reason = e := by
  have herrors := hd.errors
  rw [h.errors, he] at herrors
  by_cases hc : e = .cancelled
  · subst hc
    have hf : r.fault = none := by
      cases hf : r.fault with
      | none => rfl
      | some e' =>
        rw [hf] at herrors
        cases herrors
    rw [Report.reason, hf]
    rfl
  · have hf : r.fault = some e := by
      have hkeep : failures (some e).toList = [e] := by simp [failures, hc]
      rw [hkeep] at herrors
      cases hf : r.fault with
      | none =>
        rw [hf] at herrors
        cases herrors
      | some e' =>
        rw [hf] at herrors
        cases herrors
        rfl
    rw [Report.reason, hf]
    rfl

/-- Once the end was reported there is a first condition, and it is what was reported. -/
theorem head?_eq_reason {s : Session} {r : Report} {cs : List Ending} (hs : Sound s)
    (h : Told s r) (hd : Decided cs s) (ht : s.position.isTold = true) :
    cs.head? = some r.reason := by
  have hclosed : s.stage = .closed := by
    have hf := hs.fits
    cases hp : s.position <;> rw [hp] at hf ht <;> first | exact hf | cases ht
  have hv := hs.coherent.ne_none_of_ending (.inr hclosed)
  rw [hd.verdict] at hv
  cases hc : cs.head? with
  | none =>
    rw [hc] at hv
    exact absurd rfl hv
  | some e => rw [h.reason_eq_head hd hc]

theorem closed_mem {s : Session} {r : Report} {e : Ending} (h : Told s r)
    (he : .closed e ∈ s.journal) : s.position.isTold = true ∧ e = r.reason := by
  have hmem : Event.closed e ∈ s.callbacks := List.mem_filter.mpr ⟨he, rfl⟩
  rw [h.callbacks] at hmem
  rcases List.mem_append.mp hmem with hm | hm
  · exact absurd hm (r.closed_not_mem_prelude e)
  · split at hm
    · next ht =>
      have := List.mem_singleton.mp hm
      cases this
      exact ⟨ht, rfl⟩
    · cases hm

/-- **The first terminal condition wins.**

In every run the verdict is entered with the first condition that the session observes and stays as
it is; what is reported as the end and what the future resolves to is that condition; and the
handler hears of it as an error exactly if it is a failure, and of no other.  A failure to close is
never the first. -/
theorem first_condition_wins (o : Origin) (ms : List Move)
    (calm : ∀ message, (o.session.after ms).panicked ≠ some (.raised message)) :
    (o.session.after ms).progress.verdict = (o.session.conditions ms).head?.map .on ∧
      (∀ e ns, (o.session.conditions ms).head? = some e →
        (o.session.conditions (ms ++ ns)).head? = some e ∧
          (o.session.after (ms ++ ns)).progress.verdict = some (.on e)) ∧
      (o.session.after ms).errors = failures (o.session.conditions ms).head?.toList ∧
      (∀ e, (o.session.after ms).failure = some e →
        (o.session.conditions ms).head? = some e) ∧
      (∀ e, .closed e ∈ (o.session.after ms).journal →
        (o.session.conditions ms).head? = some e) ∧
      (∀ e, (o.session.after ms).result = some e → (o.session.conditions ms).head? = some e) ∧
      ((o.session.after ms).position = .over → (o.session.conditions ms).head? ≠ none) ∧
      (∀ text, (o.session.conditions ms).head? ≠ some (.transport .close text)) ∧
      ((o.session.after ms).stopSignal.isFired = true →
        .engineStop ∉ (o.session.after ms).doing →
        (o.session.after ms).position ≠ .neverRun →
          (o.session.conditions ms).head? ≠ none) := by
  have hcalm := panicked_eq_none calm
  have hs := sound_after o ms
  have hd := decided_after hcalm
  obtain ⟨r, h⟩ := told_after hcalm
  refine ⟨hd.verdict, ?_, hd.errors, ?_, ?_, ?_, ?_, hd.notClose, ?_⟩
  · intro e ns he
    refine ⟨head?_conditions_append he ns, ?_⟩
    rw [after_append]
    refine verdict_after ?_ ns
    rw [hd.verdict, he]
    rfl
  · intro e he
    have hf := h.genuine e he
    have hv : (o.session.after ms).progress.verdict ≠ none := by
      rw [h.failed.mpr (by rw [hf]; exact Option.some_ne_none e)]
      exact Option.some_ne_none _
    rw [hd.verdict] at hv
    cases hc : (o.session.conditions ms).head? with
    | none =>
      rw [hc] at hv
      exact absurd rfl hv
    | some c =>
      have hreason := h.reason_eq_head hd hc
      rw [Report.reason, hf] at hreason
      rw [← hreason]
      rfl
  · intro e he
    obtain ⟨ht, rfl⟩ := closed_mem h he
    exact head?_eq_reason hs h hd ht
  · intro e he
    obtain ⟨hp, rfl⟩ := h.result e he
    exact head?_eq_reason hs h hd (by rw [hp]; rfl)
  · intro hp
    rw [head?_eq_reason hs h hd (by rw [hp]; rfl)]
    exact Option.some_ne_none _
  · intro hf hdoing hp hn
    have hv := stop_enters_verdict hcalm hf hdoing hp
    rw [hd.verdict, hn] at hv
    exact hv rfl

/-- A peer that hangs up, and a handler that stops the session when it hears of that. -/
def Origin.hungUp : Origin where
  link := { ended := true }
  handler := { onError := fun _ => [.stop] }

/-- The stop comes second and changes nothing. -/
theorem first_condition_of_hungUp :
    Origin.hungUp.session.conditions (.serve :: .poll :: .replicate 20 .tick)
        = [.peerClosed, .cancelled] ∧
      (Origin.hungUp.session.after (.serve :: .poll :: .replicate 20 .tick)).errors
        = [.peerClosed] := by
  have hpanicked : (Origin.hungUp.session.after
      (.serve :: .poll :: .replicate 20 .tick)).panicked = none := by decide +kernel
  have hconditions : Origin.hungUp.session.conditions (.serve :: .poll :: .replicate 20 .tick)
      = [.peerClosed, .cancelled] := by decide +kernel
  obtain ⟨-, -, herrors, -⟩ :=
    first_condition_wins Origin.hungUp (.serve :: .poll :: .replicate 20 .tick) (by
      intro message
      rw [hpanicked]
      nofun)
  rw [hconditions] at herrors
  exact ⟨hconditions, herrors⟩

end Dialogue.Session
