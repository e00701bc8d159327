/-
What a scenario comes out as.

A scenario is one of the runs of a watch: what the plan does to the session, and what the session
does by itself, are the doings of others, and the clock jumps to the next timer and no further.  So
no look of the watcher is late, and all that is known of runs on time is known of scenarios.

`OnSchedule` is what the loop maintains: there is a run on time that leads here, and the clock has
not gone past the watcher's timer.  The second part is what makes the next jump end on time.
-/
import Dialogue.Proofs.Countdown.Answer
import Dialogue.Proofs.Session.Resolving

namespace Dialogue.Session

/-! ### A session that is over stays so -/

/-- Whoever waits for the end of a session does not wait any longer later than sooner. -/
def StaysOver (s t : Session) : Prop :=
  s.closedSignal.isFired = true → t.closedSignal.isFired = true

namespace StaysOver

variable {s t u : Session}

theorem refl (s : Session) : StaysOver s s := id

theorem trans (h : StaysOver s t) (h' : StaysOver t u) : StaysOver s u :=
  fun hs => h' (h hs)

theorem of_same (signal : t.closedSignal = s.closedSignal) : StaysOver s t := by
  rw [StaysOver, signal]
  exact id

theorem of_fired (signal : t.closedSignal = .fired) : StaysOver s t := by
  rw [StaysOver, signal]
  exact fun _ => rfl

theorem tearDown (s : Session) (cause : Panic) : StaysOver s (s.tearDown cause) := by
  unfold Session.tearDown
  dsimp only
  split
  · split
    · rw [vanish, unhookEngine_eq]
      exact of_same rfl
    · rw [vanish, unhookEngine_eq]
      exact of_fired rfl
  · exact of_same rfl

theorem perform (s : Session) (d : Deed) : StaysOver s (s.perform d) := by
  cases d with
  | act a =>
    by_cases hc : ∃ id, a = .closed id
    · obtain ⟨id, rfl⟩ := hc
      rw [StaysOver, Session.perform, act, isFired_createWaiter]
      exact fun h => h
    · by_cases hp : ∃ message, a = .panic message
      · obtain ⟨message, rfl⟩ := hp
        exact tearDown s _
      · exact of_same (sameWaiters_act s (fun id h => hc ⟨id, h⟩)
          (fun message h => hp ⟨message, h⟩)).signal
  | engineStop =>
    rw [Session.perform, onStop_eq]
    exact of_same rfl
  | heard id => exact of_same rfl

theorem of_advances (ha : Advances s t) : StaysOver s t := by
  cases ha with
  | shuts hg => rw [wireClosed_eq]; exact of_same rfl
  | fails hf link => rw [fail_eq]; exact of_same rfl
  | asks hp hw => rw [passOn_eq]; exact of_same rfl
  | isDenied hp hw => exact tearDown s _
  | concludes hp => rw [conclude_eq, settleProgress_eq]; exact of_same rfl
  | finishes hp => rw [finish_eq, unhookEngine_eq]; exact of_fired rfl
  | _ => exact of_same rfl

theorem tick (s : Session) : StaysOver s (s.move .tick) := by
  cases hd : s.doing with
  | cons d rest =>
    rw [tick_of_cons hd]
    exact (of_same rfl).trans (perform { s with doing := rest } d)
  | nil =>
    cases hr : s.running with
    | true =>
      rw [tick_of_running hd hr]
      exact of_advances (advances s)
    | false =>
      rw [tick_of_quiet hd hr]
      exact refl s

theorem settle (n : Nat) (s : Session) : StaysOver s (s.settle n) := by
  induction n generalizing s with
  | zero => exact refl s
  | succ n ih =>
    rw [Session.settle]
    split
    · exact refl s
    · exact (tick s).trans (ih s.tick)

theorem takeTurn (n : Nat) (s : Session) : StaysOver s (s.takeTurn n) := by
  refine trans ?_ (settle n _)
  unfold resume
  split <;> exact of_same rfl

theorem drain (steps n : Nat) (s : Session) : StaysOver s (s.drain steps n) := by
  induction n generalizing s with
  | zero => exact refl s
  | succ n ih =>
    rw [Session.drain]
    split
    · exact (takeTurn steps s).trans (ih _)
    · exact refl s

theorem spawn (s : Session) : StaysOver s s.spawn := by
  unfold Session.spawn
  split <;> exact of_same rfl

end StaysOver

end Dialogue.Session

namespace Dialogue.Countdown

namespace Scenario

open Dialogue.Session (Act Event StaysOver)

variable {bound : Nat} {plan : Plan} {s t : Scenario}

/-! ### The loop runs on time -/

/-- A run on time leads to a scenario, in which the watcher has looked so many times and is not
overdue. -/
structure OnSchedule (bound : Nat) (plan : Plan) (s t : Scenario) (k : Nat) : Prop where
  isRun : ∃ ms, s.Punctual bound plan ms ∧ t = s.after bound plan ms ∧
    (s.looks bound plan ms).length = k
  wake : t.now ≤ t.watcher.wake

theorem punctual_append_singleton {ms : List Move} {m : Move} (h : s.Punctual bound plan ms)
    (delay : ∀ delay ∈ (s.after bound plan ms).delay? m, delay = 0) :
    s.Punctual bound plan (ms ++ [m]) := by
  intro x hx
  rw [seen_concat] at hx
  rcases List.mem_append.mp hx with hx | hx
  · exact h x hx
  · exact delay x (Option.mem_toList.mp hx)

theorem timeline_look (since : Nat) :
    (t.look bound plan since (plan.deadline.expires since)).timeline = t.timeline := by
  rw [look_eq]
  cases plan.deadline.order? (plan.deadline.expires since - t.now) with
  | none => rfl
  | some o =>
    cases o with
    | stop reason => rfl
    | notice left =>
      rw [Option.elim_some, obey, giveNotice]
      dsimp only
      split <;> rfl

theorem timeline_runSession (bound : Nat) (t : Scenario) :
    (t.runSession bound).timeline = t.timeline := by
  rw [runSession]
  obtain ⟨since, expires, wake, -, -, heq⟩ | ⟨heq, -⟩ :=
    heed_cases { t with session := t.session.drain bound bound }.stamp <;> rw [heq] <;> rfl

/-- A look leads to the next timer, which lies ahead. -/
theorem wake_look (since : Nat) :
    (t.look bound plan since (plan.deadline.expires since)).now
      ≤ (t.look bound plan since (plan.deadline.expires since)).watcher.wake := by
  rw [look_eq]
  have hnow : ((plan.deadline.order? (plan.deadline.expires since - t.now)).elim t
      (t.obey bound plan)).now = t.now := by
    cases plan.deadline.order? (plan.deadline.expires since - t.now) with
    | none => rfl
    | some o => exact now_obey o
  dsimp only
  rw [hnow, Deadline.next]
  split <;> exact Nat.le_add_right _ _

/-- What is due does not stay on the timeline. -/
theorem length_performDue_le (timeline : List (Nat × List Act)) (t : Scenario) :
    (t.performDue bound timeline).timeline.length ≤ timeline.length := by
  induction timeline generalizing t with
  | nil => exact Nat.le_refl _
  | cons entry rest ih =>
    obtain ⟨due, acts⟩ := entry
    rw [Scenario.performDue]
    dsimp only
    split
    · exact Nat.le_refl _
    · split
      · exact Nat.zero_le _
      · exact (ih _).trans (Nat.le_succ _)

theorem length_performDue_lt {due : Nat} {acts : List Act} (rest : List (Nat × List Act))
    (h : due ≤ t.now) :
    (t.performDue bound ((due, acts) :: rest)).timeline.length ≤ rest.length := by
  rw [Scenario.performDue, if_neg (Nat.not_lt.mpr h)]
  dsimp only
  split
  · exact Nat.zero_le _
  · exact length_performDue_le rest _

namespace OnSchedule

variable {k : Nat}

/-- A move on time. -/
theorem move (h : OnSchedule bound plan s t k) {m : Move}
    (delay : ∀ delay ∈ t.delay? m, delay = 0)
    (wake : (t.move bound plan m).now ≤ (t.move bound plan m).watcher.wake) :
    OnSchedule bound plan s (t.move bound plan m) (k + (t.look? plan m).toList.length) := by
  obtain ⟨ms, hpunctual, rfl, hlooks⟩ := h.isRun
  refine ⟨⟨ms ++ [m], punctual_append_singleton hpunctual delay, (after_concat ms m).symm,
    ?_⟩, wake⟩
  rw [looks_concat, List.length_append, hlooks]

/-- Others act. -/
theorem others (h : OnSchedule bound plan s t k) (session : Session)
    (timeline : List (Nat × List Act)) (journal : List (Nat × Event))
    (hover : StaysOver t.session session) :
    OnSchedule bound plan s { t with session, timeline, journal } k := by
  have hmove : t.move bound plan (.others session timeline journal)
      = { t with session, timeline, journal } := by
    rw [Scenario.move, if_neg]
    intro hguard
    rw [Bool.and_eq_true, Bool.not_eq_true'] at hguard
    rw [hover hguard.1] at hguard
    cases hguard.2
  rw [← hmove]
  exact h.move (m := .others session timeline journal) (fun _ hd => by cases hd)
    (by rw [hmove]; exact h.wake)

theorem perform (h : OnSchedule bound plan s t k) (acts : List Act) :
    OnSchedule bound plan s (t.perform bound acts) k := by
  have hready : StaysOver t.session ({ t.session with panicked := none }.callback acts) :=
    .of_same rfl
  exact h.others _ t.timeline t.journal (hready.trans (.settle bound _))

theorem performDue (h : OnSchedule bound plan s t k) (timeline : List (Nat × List Act)) :
    OnSchedule bound plan s (t.performDue bound timeline) k := by
  induction timeline generalizing t with
  | nil => exact h.others t.session [] t.journal (.refl _)
  | cons entry rest ih =>
    obtain ⟨due, acts⟩ := entry
    rw [Scenario.performDue]
    dsimp only
    split
    · exact h.others t.session ((due, acts) :: rest) t.journal (.refl _)
    · split
      · exact (h.perform acts).others _ [] _ (.refl _)
      · exact ih (h.perform acts)

/-- The watch begins, and the watcher looks at once. -/
theorem beginWatch (h : OnSchedule bound plan s t k) {start : Nat}
    (hw : t.watcher = .waiting start) :
    OnSchedule bound plan s (t.beginWatch bound plan) (k + 1) := by
  have hlooks : t.looks? (.begin t.now) = some t.now := by
    simp [looks?, begins?, wakes?, hw]
  have hmove : t.move bound plan (.begin t.now) = t.beginWatch bound plan := move_of_looks hlooks
  have hlook : t.look? plan (.begin t.now)
      = some ⟨t.now, plan.deadline.expires t.now - t.now⟩ := by
    rw [look?, hlooks]
    rfl
  have hbegun := h.move (m := .begin t.now) (fun delay hd => by simpa [delay?, hw] using hd.symm)
    (by rw [hmove]; exact wake_look t.now)
  rwa [hmove, hlook] at hbegun

/-- The watcher looks when its pause ends. -/
theorem lookAgain {start : Nat} (fresh : s.watcher = .waiting start)
    (h : OnSchedule bound plan s t k) {since expires wake : Nat}
    (hw : t.watcher = .watching since expires wake) (due : wake = t.now) :
    expires = plan.deadline.expires since ∧
      OnSchedule bound plan s (t.look bound plan since expires) (k + 1) := by
  have hexpires : expires = plan.deadline.expires since := by
    obtain ⟨ms, -, rfl, -⟩ := h.isRun
    have hstands := stands_after bound plan fresh ms
    rw [hw] at hstands
    generalize s.began bound plan ms = began at hstands
    generalize s.looks bound plan ms = looks at hstands
    cases hstands
    rfl
  have hlooks : t.looks? .timer = some since := by
    simp [looks?, begins?, wakes?, hw, due]
  have hmove : t.move bound plan .timer = t.look bound plan since (plan.deadline.expires since) :=
    move_of_looks hlooks
  have hlook : t.look? plan .timer = some ⟨t.now, plan.deadline.expires since - t.now⟩ := by
    rw [look?, hlooks]
    rfl
  have hlooked := h.move (m := .timer) (fun delay hd => by simpa [delay?, hw, due] using hd.symm)
    (by rw [hmove]; exact wake_look since)
  rw [hmove, hlook] at hlooked
  exact ⟨hexpires, hexpires ▸ hlooked⟩

theorem runSession (h : OnSchedule bound plan s t k) :
    OnSchedule bound plan s (t.runSession bound) k := by
  have hran : OnSchedule bound plan s
      { t with session := t.session.drain bound bound }.stamp k :=
    h.others { t.session.drain bound bound with log := [] } t.timeline
      (((t.session.drain bound bound).log.map fun e => (t.now, e)) ++ t.journal)
      ((StaysOver.drain bound bound _).trans (.of_same rfl))
  refine hran.move (m := .heed) (fun _ hd => by cases hd) ?_
  rw [Scenario.move]
  obtain ⟨since, expires, wake, -, -, heq⟩ | ⟨heq, -⟩ :=
    heed_cases { t with session := t.session.drain bound bound }.stamp
  · rw [heq]
    exact Nat.le_add_right _ _
  · rw [heq]
    exact hran.wake

/-- The clock goes on to the next timer, which is not beyond the watcher's. -/
theorem pass (h : OnSchedule bound plan s t k) :
    OnSchedule bound plan s { t with now := t.nextTime } k := by
  have hnext : t.now ≤ t.nextTime ∧ t.nextTime ≤ t.watcher.wake := by
    have hwake := h.wake
    unfold nextTime
    split
    · omega
    · exact ⟨hwake, Nat.le_refl _⟩
  have hmove : t.move bound plan (.pass (t.nextTime - t.now)) = { t with now := t.nextTime } := by
    rw [Scenario.move, Nat.add_sub_cancel' hnext.1]
  rw [← hmove]
  exact h.move (m := .pass (t.nextTime - t.now)) (fun _ hd => by cases hd)
    (by rw [hmove]; exact hnext.2)

/-- Where the clock jumps to, the watcher is due, or an entry of the timeline is. -/
theorem due_of_nextTime (hdue : t.watcher.wake ≠ t.nextTime) :
    ∃ due acts rest, t.timeline = (due, acts) :: rest ∧ due ≤ t.nextTime := by
  unfold nextTime at hdue ⊢
  cases htimeline : t.timeline with
  | nil =>
    rw [htimeline] at hdue
    exact absurd rfl hdue
  | cons entry rest =>
    obtain ⟨due, acts⟩ := entry
    rw [htimeline] at hdue
    dsimp only at hdue ⊢
    exact ⟨due, acts, rest, rfl, by omega⟩

/-- The watcher looks, or what is due leaves the timeline. -/
theorem timers {start : Nat} (fresh : s.watcher = .waiting start)
    (h : OnSchedule bound plan s t k)
    (late : t.watcher.wake ≠ t.now →
      ∃ due acts rest, t.timeline = (due, acts) :: rest ∧ due ≤ t.now) {v : Scenario}
    (hv : (if t.watcher.wake = t.now then t.onWatcher bound plan else some t) = some v) :
    OnSchedule bound plan s (v.performDue bound v.timeline) (k + 1) ∧
        (v.performDue bound v.timeline).timeline.length ≤ t.timeline.length ∨
      OnSchedule bound plan s (v.performDue bound v.timeline) k ∧
        (v.performDue bound v.timeline).timeline.length < t.timeline.length := by
  by_cases hdue : t.watcher.wake = t.now
  · rw [if_pos hdue, onWatcher] at hv
    suffices looked : OnSchedule bound plan s v (k + 1) ∧ v.timeline = t.timeline by
      refine .inl ⟨looked.1.performDue v.timeline, ?_⟩
      rw [← looked.2]
      exact length_performDue_le v.timeline v
    cases hw : t.watcher with
    | waiting start =>
      rw [hw] at hv
      cases hv
      exact ⟨h.beginWatch hw, timeline_look t.now⟩
    | watching since expires wake =>
      rw [hw] at hv hdue
      cases hv
      obtain ⟨rfl, hlooked⟩ := h.lookAgain fresh hw hdue
      exact ⟨hlooked, timeline_look since⟩
    | leaving timedOut elapsed finish =>
      rw [hw] at hv
      cases hv
  · rw [if_neg hdue] at hv
    cases hv
    obtain ⟨due, acts, rest, htimeline, hle⟩ := late hdue
    refine .inr ⟨h.performDue _, ?_⟩
    rw [htimeline]
    exact Nat.lt_succ_of_le (length_performDue_lt rest hle)

theorem onTimer {start : Nat} (fresh : s.watcher = .waiting start)
    (h : OnSchedule bound plan s t k) {u : Scenario} (hu : t.onTimer bound plan = some u) :
    OnSchedule bound plan s u (k + 1) ∧ u.timeline.length ≤ t.timeline.length ∨
      OnSchedule bound plan s u k ∧ u.timeline.length < t.timeline.length := by
  obtain ⟨v, hv, rfl⟩ := Option.map_eq_some_iff.mp hu
  exact timers fresh h.pass (due_of_nextTime (t := t)) hv

/-- No watch looks more often than it pauses, and once more. -/
theorem looks_le {start : Nat} (fresh : s.watcher = .waiting start)
    (h : OnSchedule bound plan s t k) : k ≤ plan.deadline.pauseCount + 1 := by
  obtain ⟨ms, -, -, rfl⟩ := h.isRun
  have hstands := stands_after bound plan fresh ms
  cases hbegan : s.began bound plan ms with
  | none =>
    rw [hbegan] at hstands
    generalize s.looks bound plan ms = looks at hstands ⊢
    generalize (s.after bound plan ms).watcher = w at hstands
    cases hstands
    exact Nat.zero_le _
  | some since =>
    rw [hbegan] at hstands
    have hcount := hstands.paced.pausing.length_le fun l => left_of_pausing
    obtain ⟨hall, -, -⟩ | ⟨l, -, hlooks, -, -⟩ := hstands.pausing_cases
    · rw [← hall] at hcount
      omega
    · rw [hlooks, List.length_append, List.length_singleton]
      omega

end OnSchedule

/-- Only a watcher that has left has no timer. -/
theorem leaving_of_onTimer (h : t.onTimer bound plan = none) :
    ∃ timedOut elapsed finish, t.watcher = .leaving timedOut elapsed finish := by
  rw [onTimer, Option.map_eq_none_iff] at h
  dsimp only at h
  split at h
  · rw [onWatcher] at h
    cases hw : t.watcher with
    | leaving timedOut elapsed finish => exact ⟨_, _, _, rfl⟩
    | _ => rw [hw] at h; cases h
  · cases h

/-- **A scenario runs on time**, and it ends with an answer if it may run as often as the watcher
looks and the timeline has entries. -/
theorem onSchedule_run {start : Nat} (fresh : s.watcher = .waiting start) (n : Nat) {k : Nat}
    (h : OnSchedule bound plan s t k) :
    ∃ j, OnSchedule bound plan s (run bound plan n t) j ∧
      (plan.deadline.pauseCount + 1 + t.timeline.length < n + k →
        ∃ timedOut elapsed finish,
          (run bound plan n t).watcher = .leaving timedOut elapsed finish) := by
  induction n generalizing t k with
  | zero =>
    refine ⟨k, h, fun hn => ?_⟩
    have hk := h.looks_le fresh
    omega
  | succ n ih =>
    have hran := h.runSession
    have htimeline := timeline_runSession bound t
    rw [run]
    split
    · next hnone => exact ⟨k, hran, fun _ => leaving_of_onTimer hnone⟩
    · next u hu =>
      obtain ⟨hu, hle⟩ | ⟨hu, hlt⟩ := hran.onTimer fresh hu
      · obtain ⟨j, hj, hleaves⟩ := ih hu
        exact ⟨j, hj, fun hn => hleaves (by rw [htimeline] at hle; omega)⟩
      · obtain ⟨j, hj, hleaves⟩ := ih hu
        exact ⟨j, hj, fun hn => hleaves (by rw [htimeline] at hlt; omega)⟩

/-- A scenario begins on time, with no more to come than was planned. -/
theorem onSchedule_begin (bound : Nat) (plan : Plan) :
    ∃ k, OnSchedule bound plan (ahead plan.setup.session 0 plan.startAfter)
      (plan.begin bound) k ∧
      (plan.begin bound).timeline.length ≤ plan.timeline.length := by
  have hstart : OnSchedule bound plan (ahead plan.setup.session 0 plan.startAfter)
      (ahead plan.setup.session 0 plan.startAfter) 0 :=
    ⟨⟨[], nofun, rfl, rfl⟩, Nat.zero_le _⟩
  have hplanned := hstart.others plan.setup.session plan.timeline [] (.refl _)
  have hspawned := (hplanned.perform plan.before).others _ plan.timeline [] (.spawn _)
  unfold Plan.begin
  dsimp only
  by_cases hnow : plan.startAfter = 0
  · rw [if_pos hnow]
    have hbegun := hspawned.beginWatch rfl
    exact ⟨_, (hbegun.others _ _ _ (.takeTurn bound _)).performDue _, length_performDue_le _ _⟩
  · rw [if_neg hnow]
    exact ⟨_, (hspawned.others _ _ _ (.takeTurn bound _)).performDue _,
      length_performDue_le _ _⟩

end Scenario

/-! ### What comes out -/

theorem Deadline.pauseCount_le_pauses (d : Deadline) : d.pauseCount ≤ d.pauses := by
  unfold pauseCount pauses
  by_cases hb : d.budget = 0
  · rw [if_pos hb]
    exact Nat.zero_le _
  by_cases ht : d.tick = 0
  · rw [if_neg hb, if_pos ht, if_pos ht]
  · rw [if_neg hb, if_neg ht, if_neg ht, ceilDiv_le_iff_le_mul (Nat.pos_of_ne_zero ht)]
    exact Nat.le_of_lt (Nat.lt_mul_div_succ _ (Nat.pos_of_ne_zero ht))

/-- What is left at the first notices of a watch if none is late. -/
def Deadline.notices (d : Deadline) (k : Nat) : List Nat :=
  if d.tick = 0 then [] else (List.range k).map fun i => d.budget - i * d.tick

/-- How many steps a session takes at most in one go. -/
def Plan.bound (plan : Plan) : Nat :=
  Session.boundFor plan.setup.rules.weight (plan.weight + plan.deadline.pauses)

/-- The scenario of a plan at its end. -/
def Plan.last (plan : Plan) : Scenario :=
  (plan.begin plan.bound).run plan.bound plan
    (plan.deadline.pauses + plan.timeline.length + 4)

theorem Plan.outcome_of_leaving {plan : Plan} {timedOut : Bool} {elapsed finish : Nat}
    (h : plan.last.watcher = .leaving timedOut elapsed finish) :
    plan.outcome.timedOut = timedOut ∧ plan.outcome.elapsed = elapsed ∧
      plan.outcome.calls = plan.last.calls.reverse := by
  unfold last bound at h
  simp only [outcome, h, last, bound, and_self]

/-- **Every scenario is a run of a watch in which no look is late, and it ends with an answer**: the
bound on the number of timers is never met. -/
theorem last_isRun (plan : Plan) :
    ∃ ms, (Scenario.ahead plan.setup.session 0 plan.startAfter).Punctual plan.bound plan ms ∧
      plan.last = (Scenario.ahead plan.setup.session 0 plan.startAfter).after plan.bound plan ms ∧
      ∃ timedOut elapsed finish, plan.last.watcher = .leaving timedOut elapsed finish := by
  obtain ⟨k, hbegin, htimeline⟩ := Scenario.onSchedule_begin plan.bound plan
  obtain ⟨j, hlast, hleaves⟩ := Scenario.onSchedule_run rfl
    (plan.deadline.pauses + plan.timeline.length + 4) hbegin
  obtain ⟨ms, hpunctual, hrun, -⟩ := hlast.isRun
  refine ⟨ms, hpunctual, hrun, hleaves ?_⟩
  have hpauses := plan.deadline.pauseCount_le_pauses
  omega

/-- **What comes out of every plan.**  Either the time runs out, at the very end of the budget and
after all notices; or the session is over before, and the first few notices were given. -/
theorem outcome_of_plan (plan : Plan) :
    (plan.outcome.timedOut = true ∧ plan.outcome.elapsed = plan.deadline.budget ∧
      plan.outcome.calls = plan.deadline.notices plan.deadline.pauseCount) ∨
    (plan.outcome.timedOut = false ∧ plan.last.isOver = true ∧
      ∃ k ≤ plan.deadline.pauseCount, plan.outcome.calls = plan.deadline.notices k) := by
  obtain ⟨ms, hpunctual, hrun, timedOut, elapsed, finish, hw⟩ := last_isRun plan
  obtain ⟨htimedOut, helapsed, hcalls⟩ := Plan.outcome_of_leaving hw
  have hfresh : (Scenario.ahead plan.setup.session 0 plan.startAfter).watcher
      = .waiting plan.startAfter := rfl
  have hbefore : (Scenario.ahead plan.setup.session 0 plan.startAfter).calls = [] := rfl
  rw [hrun] at hw hcalls ⊢
  generalize Scenario.ahead plan.setup.session 0 plan.startAfter = s
    at hpunctual hw hcalls hfresh hbefore ⊢
  have hstands := Scenario.stands_after plan.bound plan hfresh ms
  rw [hw] at hstands
  cases hbegan : s.began plan.bound plan ms with
  | none =>
    rw [hbegan] at hstands
    cases hstands
  | some since =>
    have honTime := Scenario.onTime_after hfresh hpunctual hbegan
    have htimely := Scenario.timely_after hfresh hbegan
    have hnoticed : plan.outcome.calls
        = plan.deadline.notices (s.pauses plan.bound plan ms).length := by
      rw [hcalls, Scenario.calls_after, hbefore, List.append_nil, List.reverse_reverse,
        honTime.notified, Deadline.notices]
      split <;> simp
    cases timedOut with
    | true =>
      obtain ⟨hcount, hstops⟩ := honTime.stopped elapsed finish hw
      obtain ⟨time, hstops', -, htime⟩ := htimely.stopped elapsed finish hw
      rw [hstops] at hstops'
      cases hstops'
      refine .inl ⟨htimedOut, ?_, hcount ▸ hnoticed⟩
      omega
    | false =>
      exact .inr ⟨htimedOut, Scenario.isOver_of_told hfresh hw, _, htimely.pauses_le, hnoticed⟩

end Dialogue.Countdown
