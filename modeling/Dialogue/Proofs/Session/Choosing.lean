/-
Which stop decides.

A session may be asked to stop many times, by anyone and from anywhere, and a call may name the
reason that the peer will be given.  The stop signal fires in the first call only, and the engine
learns of it when its turn among the listeners comes.  Until then there is no verdict, and a reason
that is named replaces the one before; afterwards the reason stays as it is.

`Chooses` says what one move does to all of this.  From it follow what a whole run does to the
reason, and that a session closes for one cause only: the engine has learned of the first stop,
which was made while the session was active.  The close frame is made from the reason of that
moment.
-/
import Dialogue.Proofs.Session.Stages
import Dialogue.Proofs.Session.Verdict
import Dialogue.Proofs.Session.Writing

namespace Dialogue.Session

/-! ### Calls -/

/-- The call to stop that an act is, with the reason that the caller names, if he names one. -/
def Act.stop? : Act → Option (Option CloseReason)
  | stop => some none
  | stopWith reason => some (some reason)
  | _ => none

/-- The call to stop that is made in a move. -/
def stopCall? (s : Session) (m : Move) : Option (Option CloseReason) :=
  (s.performed? m).bind Act.stop?

/-- The calls to stop, in order. -/
def stopCalls (s : Session) (ms : List Move) : List (Option CloseReason) :=
  seen move stopCall? s ms

/-- The reason that is chosen in a move: a call to stop names it, and there is no verdict. -/
def choice? (s : Session) (m : Move) : Option CloseReason :=
  if s.progress.verdict = none then (s.stopCall? m).join else none

/-- The reasons that are chosen, in order. -/
def choices (s : Session) (ms : List Move) : List CloseReason :=
  seen move choice? s ms

theorem stopCalls_concat (s : Session) (ms : List Move) (m : Move) :
    s.stopCalls (ms ++ [m]) = s.stopCalls ms ++ ((s.after ms).stopCall? m).toList :=
  seen_concat move stopCall? s ms m

theorem choices_concat (s : Session) (ms : List Move) (m : Move) :
    s.choices (ms ++ [m]) = s.choices ms ++ ((s.after ms).choice? m).toList :=
  seen_concat move choice? s ms m

/-! ### What a move does -/

variable {s t : Session}

/-- What a step does about stopping, with the call to stop that is made in it. -/
structure Chooses (s t : Session) (call : Option (Option CloseReason)) : Prop where
  isFired : t.stopSignal.isFired = (s.stopSignal.isFired || call.isSome)
  closeReason : t.progress.closeReason =
    (if s.progress.verdict = none then call.join else none).getD s.progress.closeReason
  /-- Only a call that fires the signal lists the deed of the engine. -/
  doing : .engineStop ∈ t.doing →
    .engineStop ∈ s.doing ∨ call ≠ none ∧ s.stopSignal.isFired = false

theorem engineStop_mem_acts {acts : List Act} {deeds : List Deed}
    (h : .engineStop ∈ acts.map .act ++ deeds) : .engineStop ∈ deeds := by
  rcases List.mem_append.mp h with hacts | hdeeds
  · obtain ⟨a, -, ha⟩ := List.mem_map.mp hacts
    cases ha
  · exact hdeeds

theorem isFired_elim (signal : Broadcast.Signal Listener) (hook : Option Nat) :
    (hook.elim signal signal.disconnect).isFired = signal.isFired := by
  cases hook with
  | none => rfl
  | some id => exact Broadcast.Signal.isFired_disconnect signal id

namespace Chooses

theorem nothing (isFired : t.stopSignal.isFired = s.stopSignal.isFired)
    (closeReason : t.progress.closeReason = s.progress.closeReason)
    (doing : .engineStop ∈ t.doing → .engineStop ∈ s.doing) : Chooses s t none := by
  refine ⟨?_, ?_, fun h => .inl (doing h)⟩
  · rw [isFired]
    exact (Bool.or_false _).symm
  · rw [closeReason]
    split <;> rfl

theorem of_same (signal : t.stopSignal = s.stopSignal)
    (closeReason : t.progress.closeReason = s.progress.closeReason) (doing : t.doing = s.doing) :
    Chooses s t none := by
  refine .nothing (by rw [signal]) closeReason ?_
  rw [doing]
  exact id

theorem of_tearDown (s : Session) (cause : Panic) : Chooses s (s.tearDown cause) none := by
  refine .nothing ?_ ?_ ?_
  · obtain hsame | ⟨id, hless⟩ := stopSignal_tearDown s cause
    · rw [hsame]
    · rw [hless, Broadcast.Signal.isFired_disconnect]
  · cases hr : s.running with
    | false => rw [tearDown_of_not_running hr]
    | true =>
      obtain ⟨hprogress, -⟩ | ⟨hprogress, -⟩ := (tearDown_of_running hr cause).progress
      · rw [hprogress]
      · rw [hprogress, settleProgress_eq]
        rfl
  · rw [doing_tearDown]
    nofun

/-- Whoever listens is told of a stop, if the signal has not fired before. -/
theorem of_fireStop {r : CloseReason} {call : Option CloseReason} (perm : ∀ l, (s.order l).Perm l)
    (reason : r = (if s.progress.verdict = none then call else none).getD s.progress.closeReason) :
    Chooses s (fireStop { s with progress := { s.progress with closeReason := r } })
      (some call) := by
  refine ⟨(Bool.or_true _).symm, reason, ?_⟩
  intro hmem
  cases hf : s.stopSignal with
  | armed n slots => exact .inr ⟨nofun, rfl⟩
  | fired =>
    have hnobody : s.order (s.stopSignal.slots.map (·.2)) = [] := by
      rw [hf]
      exact (perm []).eq_nil
    have hdoing : (fireStop { s with progress := { s.progress with closeReason := r } }).doing
        = s.doing := by
      show (s.order (s.stopSignal.slots.map (·.2))).flatMap (·.deeds) ++ s.doing = _
      rw [hnobody]
      rfl
    rw [hdoing] at hmem
    exact .inl hmem

theorem of_listen (s : Session) (id : Int) (acts : List Act) :
    Chooses s (s.listen id acts) none := by
  unfold listen
  dsimp only
  split
  · next hook signal hreg =>
    have hsignal : signal.isFired = s.stopSignal.isFired := by
      cases hs : s.stopSignal with
      | armed n slots =>
        rw [hs] at hreg
        cases hreg
        rfl
      | fired =>
        rw [hs] at hreg
        cases hreg
    rw [unhookStop_eq]
    exact .nothing ((isFired_elim _ _).trans hsignal) rfl fun hmem => hmem
  · refine .nothing rfl rfl ?_
    intro hmem
    have hmem : .engineStop ∈ acts.map Deed.act ++ s.doing := by
      rcases List.mem_cons.mp hmem with hheard | hmem
      · cases hheard
      · exact hmem
    exact engineStop_mem_acts hmem

theorem of_unlisten (s : Session) (id : Int) : Chooses s (s.unlisten id) none := by
  unfold unlisten
  split
  · exact .of_same rfl rfl rfl
  · rw [unhookStop_eq]
    exact .nothing (isFired_elim _ _) rfl fun hmem => hmem

theorem of_act (perm : ∀ l, (s.order l).Perm l) (a : Act) : Chooses s (s.act a) a.stop? := by
  cases a with
  | send message =>
    rw [act, send_eq]
    split <;> exact .of_same rfl rfl rfl
  | echo =>
    rw [act, send_eq]
    split <;> exact .of_same rfl rfl rfl
  | stop =>
    refine .of_fireStop perm (r := s.progress.closeReason) ?_
    split <;> rfl
  | stopWith r =>
    rw [act, chooseReason_eq]
    refine .of_fireStop perm ?_
    cases s.progress.verdict <;> rfl
  | panic message => exact .of_tearDown s _
  | closed id =>
    simp only [act, createWaiter]
    split <;> split <;> exact .of_same rfl rfl rfl
  | listen id acts => exact .of_listen s id acts
  | unlisten id => exact .of_unlisten s id
  | link act =>
    rw [Session.act, onLink, touch_eq]
    exact .of_same rfl rfl rfl
  | note => exact .of_same rfl rfl rfl
  | tokenFired => exact .of_same rfl rfl rfl
  | debug => exact .of_same rfl rfl rfl

theorem of_advances (hs : Sound s) (ha : Advances s t) : Chooses s t none := by
  cases ha with
  | shuts hg =>
    rw [wireClosed_eq]
    exact .of_same rfl rfl rfl
  | begins hp hh => exact .nothing rfl rfl engineStop_mem_acts
  | fails hf link =>
    rw [fail_eq]
    refine .nothing rfl rfl ?_
    dsimp only
    split
    · exact engineStop_mem_acts
    · exact id
  | connects hp hv => exact .nothing rfl rfl engineStop_mem_acts
  | hands hp hr hn => exact .nothing rfl rfl engineStop_mem_acts
  | asks hp hw =>
    rw [passOn_eq]
    exact .of_same rfl rfl rfl
  | isDenied hp hw => exact absurd hw (hs.wait?_ne_none hp)
  | concludes hp =>
    rw [conclude_eq, settleProgress_eq]
    exact .nothing rfl rfl engineStop_mem_acts
  | finishes hp =>
    rw [finish_eq, unhookEngine_eq]
    exact .nothing (isFired_elim _ _) rfl id
  | _ => exact .of_same rfl rfl rfl

/-- **Every move calls for a stop as it says, and chooses nothing else.** -/
theorem of_move (hs : Sound s) (perm : ∀ l, (s.order l).Perm l) (m : Move) :
    Chooses s (s.move m) (s.stopCall? m) := by
  cases ha : s.performed? m with
  | some a =>
    obtain ⟨deeds, hmove, hdeeds⟩ := move_of_performed ha
    have hact := of_act (s := { s with doing := deeds }) perm a
    rw [stopCall?, ha, hmove]
    refine ⟨hact.isFired, hact.closeReason, ?_⟩
    intro hmem
    rcases hact.doing hmem with hleft | hcall
    · refine .inl ?_
      rcases hdeeds with rfl | hdoing
      · exact hleft
      · rw [hdoing]
        exact List.mem_cons_of_mem _ hleft
    · exact .inr hcall
  | none =>
    rw [stopCall?, ha]
    have hm := moves s m
    generalize s.move m = t at hm
    cases hm with
    | stays => exact .of_same rfl rfl rfl
    | acts a => cases ha
    | @does d rest hd =>
      have hrest : .engineStop ∈ rest → .engineStop ∈ s.doing := by
        rw [hd]
        exact List.mem_cons_of_mem _
      cases d with
      | act a =>
        rw [performed?, hd] at ha
        cases ha
      | engineStop =>
        rw [perform, onStop_eq]
        refine .nothing rfl ?_ hrest
        rw [progress_onStop]
        rfl
      | heard id => exact .nothing rfl rfl hrest
    | advances hd hr hadv => exact .of_advances hs hadv
    | hands hp hq => exact .of_same rfl rfl rfl
    | refuses hp hacc => exact .of_same rfl rfl rfl
    | resumes hr hp hq => exact .of_same rfl rfl rfl
    | misses hr hq hp => exact .of_same rfl rfl rfl
    | drops hr hp =>
      rw [releaseOperations_eq]
      exact .of_same rfl rfl rfl
    | disowns hp =>
      rw [unhookEngine_eq]
      exact .nothing (isFired_elim _ _) rfl id
    | shuts => exact .of_same rfl rfl rfl

end Chooses

/-! ### The reason of a run -/

theorem chooses_move (o : Origin) (ms : List Move) (m : Move) :
    Chooses (o.session.after ms) ((o.session.after ms).move m)
      ((o.session.after ms).stopCall? m) := by
  refine .of_move (sound_after o ms) ?_ m
  rw [order_after]
  exact o.order_perm

/-- The stop signal has fired if and only if somebody called for a stop. -/
theorem isFired_after (o : Origin) (ms : List Move) :
    (o.session.after ms).stopSignal.isFired = false ↔ o.session.stopCalls ms = [] := by
  induction ms using List.reverseRecOn with
  | nil => exact ⟨fun _ => rfl, fun _ => rfl⟩
  | append_singleton ms m ih =>
    rw [after_concat, (chooses_move o ms m).isFired, stopCalls_concat,
      Bool.or_eq_false_iff, ih, List.append_eq_nil_iff]
    cases (o.session.after ms).stopCall? m <;> simp

theorem isFired_of_asked {o : Origin} {ms : List Move} (asked : o.session.stopCalls ms ≠ []) :
    (o.session.after ms).stopSignal.isFired = true := by
  rw [← Bool.not_eq_false, isFired_after]
  exact asked

/-- A call is not taken back. -/
theorem asked_append {s : Session} {ms : List Move} (asked : s.stopCalls ms ≠ [])
    (ns : List Move) : s.stopCalls (ms ++ ns) ≠ [] := by
  rw [stopCalls, seen_append]
  exact List.append_ne_nil_of_left_ne_nil asked _

/-- **The reason is the last that was chosen**, or it is as it was. -/
theorem closeReason_after (o : Origin) (ms ns : List Move) :
    (o.session.after (ms ++ ns)).progress.closeReason =
      ((o.session.after ms).choices ns).getLastD (o.session.after ms).progress.closeReason := by
  induction ns using List.reverseRecOn with
  | nil =>
    rw [List.append_nil]
    rfl
  | append_singleton ns n ih =>
    have hlast : (o.session.after (ms ++ (ns ++ [n]))).progress.closeReason =
        ((o.session.after (ms ++ ns)).choice? n).getD
          (o.session.after (ms ++ ns)).progress.closeReason := by
      rw [← List.append_assoc, after_concat]
      exact (chooses_move o (ms ++ ns) n).closeReason
    rw [hlast, ih, choices_concat, ← after_append]
    cases (o.session.after (ms ++ ns)).choice? n <;> simp

/-- Once there is a verdict no reason is chosen. -/
theorem choices_eq_nil {v : Verdict} (h : s.progress.verdict = some v) (ms : List Move) :
    s.choices ms = [] := by
  induction ms generalizing s with
  | nil => rfl
  | cons m ms ih =>
    have hnone : s.choice? m = none := if_neg (by simp [h])
    show (s.choice? m).toList ++ (s.move m).choices ms = []
    rw [hnone, ih (verdict_move h m)]
    rfl

/-- Once there is a verdict the reason stays. -/
theorem closeReason_of_verdict {o : Origin} {ms : List Move}
    (h : (o.session.after ms).progress.verdict ≠ none) (ns : List Move) :
    (o.session.after (ms ++ ns)).progress.closeReason
      = (o.session.after ms).progress.closeReason := by
  obtain ⟨v, hv⟩ := Option.ne_none_iff_exists'.mp h
  rw [closeReason_after, choices_eq_nil hv]
  rfl

/-- Who does not call for a stop chooses no reason. -/
theorem choices_of_unasked (h : s.stopCalls ms = []) : s.choices ms = [] := by
  induction ms generalizing s with
  | nil => rfl
  | cons m ms ih =>
    obtain ⟨hcall, hrest⟩ := List.append_eq_nil_iff.mp h
    have hnone : s.stopCall? m = none := by
      cases hc : s.stopCall? m with
      | none => rfl
      | some call =>
        rw [hc] at hcall
        cases hcall
    show (s.choice? m).toList ++ (s.move m).choices ms = []
    rw [ih hrest, choice?, hnone]
    split <;> rfl

/-- Whoever raises a panic performs it. -/
theorem performed?_of_raised {m : Move} (h : s.raised? m ≠ none) :
    ∃ message, s.performed? m = some (.panic message) := by
  rw [raised?] at h
  cases ha : s.performed? m with
  | none =>
    rw [ha] at h
    exact absurd rfl h
  | some a =>
    rw [ha] at h
    obtain ⟨message, rfl⟩ := Act.eq_panic_of_raised h
    exact ⟨message, rfl⟩

/-- A callback that panics is no condition. -/
theorem condition?_of_raised {m : Move} (h : s.raised? m ≠ none) : s.condition? m = none := by
  cases m with
  | tick =>
    cases hd : s.doing with
    | nil =>
      rw [raised?, performed?, hd] at h
      exact absurd rfl h
    | cons d rest =>
      rw [raised?_of_doing hd] at h
      cases d with
      | act a => rw [condition?, hd]
      | engineStop => exact absurd rfl h
      | heard id => exact absurd rfl h
  | _ => rfl

/-- As long as there is no verdict, nothing was observed that would give one. -/
theorem conditions_eq_nil {o : Origin} {ms : List Move}
    (h : (o.session.after ms).progress.verdict = none) : o.session.conditions ms = [] := by
  induction ms using List.reverseRecOn with
  | nil => rfl
  | append_singleton ms m ih =>
    rw [after_concat] at h
    have hnone : (o.session.after ms).condition? m = none := by
      by_cases hr : (o.session.after ms).raised? m = none
      · have hobs := (observes_move (sound_after o ms) m hr).verdict
        rw [h, verdict_none_of_move h] at hobs
        cases hc : (o.session.after ms).condition? m with
        | none => rfl
        | some e =>
          rw [hc] at hobs
          cases hobs
      · exact condition?_of_raised hr
    rw [conditions_append, ih (verdict_none_of_move h), conditions, seen, hnone]
    rfl

/-! ### The first stop -/

/-- The deed is the engine's. -/
def Deed.isStop : Deed → Bool
  | engineStop => true
  | act _ | heard _ => false

/-- The panic that is raised in a move while the engine has still to learn of a stop. -/
def stopPanic? (s : Session) (m : Move) : Option String :=
  if s.doing.any Deed.isStop then s.raised? m else none

/-- The panics that are raised while the engine has still to learn of a stop, in order. -/
def stopPanics (s : Session) (ms : List Move) : List String :=
  seen move stopPanic? s ms

theorem stopPanics_append (s : Session) (ms ns : List Move) :
    s.stopPanics (ms ++ ns) = s.stopPanics ms ++ (s.after ms).stopPanics ns :=
  seen_append move stopPanic? s ms ns

theorem any_isStop_iff : s.doing.any Deed.isStop = true ↔ .engineStop ∈ s.doing := by
  rw [List.any_eq_true]
  refine ⟨?_, fun hmem => ⟨_, hmem, rfl⟩⟩
  rintro ⟨d, hmem, hd⟩
  cases d with
  | engineStop => exact hmem
  | act a => cases hd
  | heard id => cases hd

/-- **The engine is registered, or has learned of the stop**, unless a panic was raised in between,
whoever else panics. -/
theorem hooked_of_heard {o : Origin} {ms : List Move} (h : o.session.stopPanics ms = []) :
    Hooked (o.session.after ms) := by
  induction ms using List.reverseRecOn with
  | nil => exact o.hooked
  | append_singleton ms m ih =>
    rw [stopPanics_append, List.append_eq_nil_iff] at h
    have hh := ih h.1
    rw [after_concat]
    have perm : ∀ l, ((o.session.after ms).order l).Perm l := by
      rw [order_after]
      exact o.order_perm
    by_cases hr : (o.session.after ms).raised? m = none
    · exact hh.moves (sound_after o ms) perm (Session.moves _ m) hr
    · have hlearned : .engineStop ∉ (o.session.after ms).doing := by
        intro hmem
        have hpanic := h.2
        rw [stopPanics, seen, stopPanic?, if_pos (any_isStop_iff.mpr hmem)] at hpanic
        simp only [seen, List.append_nil, Option.toList_eq_nil_iff] at hpanic
        exact hr hpanic
      have hheard : (o.session.after ms).stopSignal.isFired = true →
          (o.session.after ms).engineHook ≠ none →
            (o.session.after ms).progress.verdict ≠ none := by
        intro hf hn
        rcases hh.heard hf hn with hmem | hv
        · exact absurd hmem hlearned
        · exact hv
      obtain ⟨message, hpanic⟩ := performed?_of_raised hr
      obtain ⟨deeds, hmove, -⟩ := move_of_performed hpanic
      rw [hmove]
      exact Hooked.tearDown ⟨hh.numbers, hh.tokens, hh.hook, hh.registered, hh.gone,
        fun hf hn => .inr (hheard hf hn)⟩ hheard _

/-- Until somebody calls for a stop the engine has none to learn of. -/
theorem engineStop_not_mem_of_unasked {o : Origin} {ms : List Move}
    (h : o.session.stopCalls ms = []) : .engineStop ∉ (o.session.after ms).doing := by
  induction ms using List.reverseRecOn with
  | nil => exact List.not_mem_nil
  | append_singleton ms m ih =>
    rw [stopCalls_concat, List.append_eq_nil_iff, Option.toList_eq_nil_iff] at h
    rw [after_concat]
    intro hmem
    rcases (chooses_move o ms m).doing hmem with hbefore | ⟨hcall, -⟩
    · exact ih h.1 hbefore
    · exact hcall h.2

/-- Until somebody calls for a stop the engine is registered, whoever panics. -/
theorem hooked_of_unasked {o : Origin} {ms : List Move} (h : o.session.stopCalls ms = []) :
    Hooked (o.session.after ms) := by
  refine hooked_of_heard ?_
  induction ms using List.reverseRecOn with
  | nil => rfl
  | append_singleton ms m ih =>
    rw [stopCalls_concat, List.append_eq_nil_iff] at h
    have hnone : (o.session.after ms).stopPanic? m = none :=
      if_neg fun hmem => engineStop_not_mem_of_unasked h.1 (any_isStop_iff.mp hmem)
    rw [stopPanics_append, ih h.1, stopPanics, seen, hnone]
    rfl

/-- The reason that the session gives, some moves after its first stop: the last that was chosen
since, else that of the stop, else the configured one. -/
def Origin.reasonGiven (o : Origin) (ms : List Move) (m : Move) (call : Option CloseReason)
    (since : List Move) : CloseReason :=
  ((o.session.after (ms ++ [m])).choices since).getLastD (call.getD o.settings.closeReason)

/-- The first call to stop is made in a move, while the session is active. -/
structure FirstStop (o : Origin) (ms : List Move) (m : Move) (call : Option CloseReason) :
    Prop where
  first : o.session.stopCalls ms = []
  call : (o.session.after ms).stopCall? m = some call
  active : (o.session.after ms).stage = .active

namespace FirstStop

variable {o : Origin} {ms : List Move} {m : Move} {call : Option CloseReason}

theorem verdict (h : FirstStop o ms m call) : (o.session.after ms).progress.verdict = none :=
  (sound_after o ms).coherent.none_of_active h.active

/-- The signal fires, and otherwise a reason may be chosen. -/
theorem fires (h : FirstStop o ms m call) : ∃ deeds r,
    o.session.after (ms ++ [m]) = fireStop { o.session.after ms with
      doing := deeds
      progress := { (o.session.after ms).progress with closeReason := r } } := by
  have hcall := h.call
  rw [stopCall?] at hcall
  cases ha : (o.session.after ms).performed? m with
  | none =>
    rw [ha] at hcall
    cases hcall
  | some a =>
    rw [ha] at hcall
    obtain ⟨deeds, hmove, -⟩ := move_of_performed ha
    rw [after_concat, hmove]
    cases a with
    | stop => exact ⟨deeds, _, rfl⟩
    | stopWith r =>
      rw [act, chooseReason_eq]
      exact ⟨deeds, _, rfl⟩
    | _ => cases hcall

/-- The session is active still when the call returns to its caller, or goes on to the listeners. -/
theorem stage (h : FirstStop o ms m call) : (o.session.after (ms ++ [m])).stage = .active := by
  obtain ⟨deeds, r, heq⟩ := h.fires
  rw [heq]
  exact h.active

theorem position (h : FirstStop o ms m call) :
    (o.session.after (ms ++ [m])).position = (o.session.after ms).position := by
  obtain ⟨deeds, r, heq⟩ := h.fires
  rw [heq]
  rfl

/-- The reason is the caller's, or the configured one. -/
theorem closeReason (h : FirstStop o ms m call) :
    (o.session.after (ms ++ [m])).progress.closeReason = call.getD o.settings.closeReason := by
  have hchosen := (chooses_move o ms m).closeReason
  have hbefore := closeReason_after o [] ms
  rw [after_nil, choices_of_unasked h.first] at hbefore
  rw [after_concat, hchosen, h.call, if_pos h.verdict]
  show call.getD (o.session.after ([] ++ ms)).progress.closeReason = _
  rw [hbefore]
  rfl

/-- The engine is among those who will be told. -/
theorem listed (h : FirstStop o ms m call) : .engine ∈
    (o.session.after ms).order ((o.session.after ms).stopSignal.slots.map (·.2)) := by
  have hh := hooked_of_unasked h.first
  have hf := (isFired_after o ms).mpr h.first
  have hhook : (o.session.after ms).engineHook = some 0 := by
    rcases hh.hook with hgone | hhook
    · have hfits := (sound_after o ms).fits
      have hactive : (o.session.after ms).progress.stage = .active := h.active
      rcases hh.gone hgone with hp | hp
      · rw [hp] at hfits
        exact absurd (hfits.symm.trans hactive) nofun
      · rw [hp] at hfits
        exact absurd (hfits.symm.trans hactive) nofun
    · exact hhook
  rw [order_after]
  exact (o.order_perm _).mem_iff.mpr (List.mem_map_of_mem (hh.registered hhook hf))

theorem engineStop_mem (h : FirstStop o ms m call) :
    .engineStop ∈ (o.session.after (ms ++ [m])).doing := by
  have hlisted := h.listed
  obtain ⟨deeds, r, heq⟩ := h.fires
  rw [heq]
  exact List.mem_append_left _ (List.mem_flatMap.mpr ⟨_, hlisted, List.mem_singleton_self _⟩)

end FirstStop

/-- Nobody else adds to what is left to do. -/
theorem doing_move {m : Move} (htick : m ≠ .tick) (hact : ∀ a, m ≠ .act a) :
    (s.move m).doing = s.doing := by
  have hm := moves s m
  generalize s.move m = t at hm
  cases hm with
  | acts a => exact absurd rfl (hact a)
  | does hd => exact absurd rfl htick
  | advances hd hr ha => exact absurd rfl htick
  | drops hr hp => rw [releaseOperations_eq]
  | disowns hp => rw [unhookEngine_eq]
  | _ => rfl

/-- An act that may have a say in the reason, by itself or by what it sets going. -/
def Act.hasSay : Act → Bool
  | stop | stopWith _ | listen _ _ | panic _ => true
  | _ => false

theorem Act.stop?_of_mute {a : Act} (h : a.hasSay = false) : a.stop? = none := by
  cases a <;> first | rfl | cases h

theorem doing_of_mute {a : Act} (h : a.hasSay = false) : (s.act a).doing = s.doing := by
  cases a with
  | stop | stopWith _ | listen _ _ | panic _ => cases h
  | send message =>
    rw [act, send_eq]
    split <;> rfl
  | echo =>
    rw [act, send_eq]
    split <;> rfl
  | closed id =>
    simp only [act, createWaiter]
    split <;> split <;> rfl
  | unlisten id =>
    simp only [act, unlisten, unhookStop_eq]
    split <;> rfl
  | link change => rw [act, onLink, touch_eq]
  | _ => rfl

/-- Where no act in front of the engine's deed has a say, and nobody else has one, no reason is
chosen. -/
theorem choices_of_listed {front rest : List Deed} {ns : List Move}
    (hd : s.doing = front ++ rest) (listed : .engineStop ∈ front)
    (mute : ∀ a, .act a ∈ front → a.hasSay = false)
    (alone : ∀ before a rest, ns = before ++ .act a :: rest →
      a.hasSay = false ∨ (s.after before).progress.verdict ≠ none) : s.choices ns = [] := by
  induction ns generalizing s front with
  | nil => rfl
  | cons n ns ih =>
    by_cases hv : s.progress.verdict = none
    · have later : ∀ before a rest, ns = before ++ .act a :: rest →
          a.hasSay = false ∨ ((s.move n).after before).progress.verdict ≠ none := by
        intro before a rest hns
        exact alone (n :: before) a rest (by rw [hns]; rfl)
      have split : s.stopCall? n = none → (s.move n).choices ns = [] →
          s.choices (n :: ns) = [] := by
        intro hcall hrest
        show (s.choice? n).toList ++ (s.move n).choices ns = []
        rw [hrest, choice?, hcall]
        split <;> rfl
      cases n with
      | act a =>
        have hmute : a.hasSay = false := (alone [] a ns rfl).resolve_right (· hv)
        have hdoing : (s.move (.act a)).doing = front ++ rest := (doing_of_mute hmute).trans hd
        exact split (Act.stop?_of_mute hmute) (ih hdoing listed mute later)
      | tick =>
        cases front with
        | nil => cases listed
        | cons d front =>
          have hcall : s.stopCall? .tick = d.act?.bind Act.stop? := by
            rw [stopCall?, performed?, hd]
            rfl
          have hmute : ∀ a, .act a ∈ front → a.hasSay = false :=
            fun a hmem => mute a (List.mem_cons_of_mem _ hmem)
          have hlisted : d ≠ .engineStop → .engineStop ∈ front := by
            intro hne
            rcases List.mem_cons.mp listed with he | hmem
            · exact absurd he.symm hne
            · exact hmem
          rw [tick_of_cons hd] at later split
          cases d with
          | act a =>
            have ha : a.hasSay = false := mute a List.mem_cons_self
            refine split (hcall.trans (Act.stop?_of_mute ha)) ?_
            exact ih (doing_of_mute ha) (hlisted (by simp)) hmute later
          | engineStop =>
            refine split hcall (choices_eq_nil (v := .cancelled) ?_ ns)
            rw [perform, progress_onStop]
            show some (s.progress.verdict.getD .cancelled) = _
            rw [hv]
            rfl
          | heard id => exact split hcall (ih rfl (hlisted (by simp)) hmute later)
      | _ =>
        refine split rfl (ih ?_ listed mute later)
        rw [doing_move (by simp) (by simp), hd]
    · obtain ⟨v, hsome⟩ := Option.ne_none_iff_exists'.mp hv
      exact choices_eq_nil hsome _

/-- Nobody else has a say in the reason while the stop of a move is under way: not the callbacks on
the stop token, and not whoever acts before the engine has learned of the stop. -/
structure IsAlone (o : Origin) (ms : List Move) (m : Move) (since : List Move) : Prop where
  callbacks : ∀ n id acts, (n, .token id acts) ∈ (o.session.after ms).stopSignal.slots →
    ∀ a ∈ acts, a.hasSay = false
  others : ∀ before a rest, since = before ++ .act a :: rest →
    a.hasSay = false ∨ ((o.session.after (ms ++ [m])).after before).progress.verdict ≠ none

/-- **Nobody but the caller of the first stop has a say in the reason, unless somebody calls the
session while the stop is under way.** -/
theorem reasonGiven_of_alone {o : Origin} {ms since : List Move} {m : Move}
    {call : Option CloseReason} (h : FirstStop o ms m call) (alone : IsAlone o ms m since) :
    o.reasonGiven ms m call since = call.getD o.settings.closeReason := by
  have hnone : (o.session.after (ms ++ [m])).choices since = [] := by
    have hmem := h.listed
    have others := alone.others
    obtain ⟨deeds, r, heq⟩ := h.fires
    rw [heq] at others ⊢
    refine choices_of_listed rfl (List.mem_flatMap.mpr ⟨_, hmem, List.mem_singleton_self _⟩)
      ?_ others
    intro a ha
    obtain ⟨listener, hlistener, hdeed⟩ := List.mem_flatMap.mp ha
    cases listener with
    | engine => cases List.mem_singleton.mp hdeed
    | token id acts =>
      have hslot : Listener.token id acts ∈ (o.session.after ms).stopSignal.slots.map (·.2) := by
        rw [order_after] at hlistener
        exact (o.order_perm _).mem_iff.mp hlistener
      obtain ⟨⟨n, listener⟩, hin, hlistener⟩ := List.mem_map.mp hslot
      have hin : (n, Listener.token id acts) ∈ (o.session.after ms).stopSignal.slots := by
        rwa [← hlistener]
      refine alone.callbacks n id acts hin a ?_
      simpa [Listener.deeds] using hdeed
  rw [Origin.reasonGiven, hnone]
  rfl

/-! ### Why a session closes -/

/-- The engine is about to learn of the first stop, and the session is active still. -/
structure Learns (o : Origin) (before : List Move) (m : Move) (call : Option CloseReason)
    (since : List Move) : Prop where
  stop : FirstStop o before m call
  next : (o.session.after (before ++ m :: since)).doing.head? = some .engineStop
  active : (o.session.after (before ++ m :: since)).stage = .active

/-- The engine has learned of a first stop that was made while the session was active. -/
def HasLearned (o : Origin) (ms : List Move) : Prop :=
  ∃ before m call since rest, ms = before ++ m :: (since ++ .tick :: rest) ∧
    Learns o before m call since

theorem HasLearned.concat {o : Origin} {ms : List Move} (h : HasLearned o ms) (m : Move) :
    HasLearned o (ms ++ [m]) := by
  obtain ⟨before, n, call, since, rest, rfl, hlearns⟩ := h
  exact ⟨before, n, call, since, rest ++ [m], by simp, hlearns⟩

theorem Learns.doing {o : Origin} {before since : List Move} {m : Move}
    {call : Option CloseReason} (h : Learns o before m call since) :
    ∃ deeds, (o.session.after (before ++ m :: since)).doing = .engineStop :: deeds := by
  have hnext := h.next
  cases hd : (o.session.after (before ++ m :: since)).doing with
  | nil =>
    rw [hd] at hnext
    cases hnext
  | cons d deeds =>
    rw [hd] at hnext
    cases hnext
    exact ⟨deeds, rfl⟩

/-- The engine enters a verdict. -/
theorem Learns.verdict {o : Origin} {before since : List Move} {m : Move}
    {call : Option CloseReason} (h : Learns o before m call since) (rest : List Move) :
    (o.session.after (before ++ m :: (since ++ .tick :: rest))).progress.verdict
      = some .cancelled := by
  have hsplit : before ++ m :: (since ++ .tick :: rest)
      = before ++ m :: since ++ .tick :: rest := by simp
  rw [hsplit, after_append, after_cons]
  refine verdict_after ?_ rest
  have hv := (sound_after o (before ++ m :: since)).coherent.none_of_active h.active
  obtain ⟨deeds, hd⟩ := h.doing
  rw [tick_of_cons hd, perform, progress_onStop]
  show some ((o.session.after (before ++ m :: since)).progress.verdict.getD .cancelled) = _
  rw [hv]
  rfl

/-- From then on the reason is the last that was chosen since the stop, if not that of the stop. -/
theorem Learns.closeReason {o : Origin} {before since : List Move} {m : Move}
    {call : Option CloseReason} (h : Learns o before m call since) (rest : List Move) :
    (o.session.after (before ++ m :: (since ++ .tick :: rest))).progress.closeReason
      = o.reasonGiven before m call since := by
  have hlearned := closeReason_of_verdict (by rw [h.verdict []]; nofun) rest
  have hstop := closeReason_after o (before ++ [m]) (since ++ [.tick])
  have htick : (o.session.after (before ++ [m] ++ since)).choice? .tick = none := by
    have hnext := h.next
    have hsplit : before ++ m :: since = before ++ [m] ++ since := by simp
    rw [hsplit] at hnext
    have hcall : (o.session.after (before ++ [m] ++ since)).stopCall? .tick = none := by
      rw [stopCall?, performed?, hnext]
      rfl
    rw [choice?, hcall]
    split <;> rfl
  rw [choices_concat, ← after_append, htick, Option.toList_none, List.append_nil,
    h.stop.closeReason] at hstop
  rw [Origin.reasonGiven, ← hstop]
  simpa using hlearned

/-- The text of the close frame that is about to be written. -/
@[simp]
def Transmitting.announcement? : Transmitting → Option String
  | announcing text => some text
  | asking | waiting _ | writing _ | flushing | announced | closing | failing _ | done => none

@[simp, inherit_doc Transmitting.announcement?]
def Position.announcement? : Position → Option String
  | active _ _ tx => tx.announcement?
  | engine | neverRun | spawned | preparing | handshaking | awaiting | refusing _ | opened
  | discarding | finishing _ | concluding _ _ | .over => none

/-- The future comes to the close frame in one way. -/
theorem announcement_advances {text : String} (hs : Sound s) (ha : Advances s t)
    (h : t.position.announcement? = some text) :
    s.position.announcement? = some text ∨
      s.stage = .closing ∧ text = s.progress.closeReason.announcement := by
  cases ha with
  | goes hg => cases hg <;> simp_all [goto]
  | sleeps hg => cases hg <;> simp_all [suspendOnLink, suspend]
  | shuts hg => cases hg <;> simp_all [goto]
  | fails hf link =>
    rw [fail_eq] at h
    rcases Sound.position_of_fault hf with hp | ⟨tx, hp⟩ | ⟨rx, tx, hp, -⟩ <;>
      rw [hp] at h ⊢ <;> dsimp only at h <;> split at h <;>
        simp_all [Position.reporting, Position.dismissed]
  | records hp =>
    refine .inl ?_
    cases hpos : s.position with
    | active turn rx tx => cases turn <;> simp_all [record, goto, Position.dismissed]
    | _ => simp_all [record, goto, Position.dismissed]
  | parts hp ho hd =>
    have hparting : s.parting.announcement? = some text := h
    unfold parting at hparting
    split at hparting
    · next hclosing =>
      split at hparting
      · exact .inr ⟨hclosing, (Option.some.inj hparting).symm⟩
      · cases hparting
    · cases hparting
  | isDenied hp hw => exact absurd hw (hs.wait?_ne_none hp)
  | asks hp hw =>
    rw [passOn_eq] at h
    cases h
  | concludes hp =>
    rw [conclude_eq] at h
    cases h
  | finishes hp =>
    rw [finish_eq] at h
    cases h
  | hands hp hr hn => exact .inl h
  | listens hp hr hn he =>
    rw [hp]
    exact .inl h
  | rests hp => exact .inl h
  | _ => cases h

theorem announcement_perform {d : Deed} {text : String}
    (h : (s.perform d).position.announcement? = some text) :
    s.position.announcement? = some text := by
  obtain ⟨hp, -⟩ | ⟨hp, -⟩ := position_perform s d
  · rwa [hp] at h
  · rw [hp] at h
    cases h

theorem announcement_move {m : Move} {text : String} (hs : Sound s)
    (h : (s.move m).position.announcement? = some text) :
    s.position.announcement? = some text ∨
      s.stage = .closing ∧ text = s.progress.closeReason.announcement := by
  have hm := moves s m
  generalize s.move m = t at hm h
  cases hm with
  | acts a => exact .inl (announcement_perform (d := .act a) h)
  | @does d rest hd => exact .inl (announcement_perform (s := { s with doing := rest }) h)
  | advances hd hr ha => exact announcement_advances hs ha h
  | disowns hp =>
    rw [unhookEngine_eq] at h
    cases h
  | hands hp hq => cases h
  | refuses hp ha => cases h
  | drops hr hp => cases h
  | _ => exact .inl h

theorem announcement_of_frame {m : Move} {text : String} (h : s.frame? m = some (.close text)) :
    s.position.announcement? = some text := by
  unfold frame? at h
  split at h
  · split at h
    · unfold Position.frame? at h
      split at h
      · cases h
      · next hp =>
        cases h
        rw [hp]
        rfl
      · cases h
    · cases h
  · cases h

/-- Where the engine's deed comes from, why the session closes, and which close frame is written. -/
structure Traced (o : Origin) (ms : List Move) (s : Session) : Prop where
  asked : .engineStop ∈ s.doing → s.stage = .active →
    ∃ before m call since, ms = before ++ m :: since ∧ FirstStop o before m call
  learned : s.stage = .closing → HasLearned o ms
  announcing : ∀ text, s.position.announcement? = some text →
    HasLearned o ms ∧ text = s.progress.closeReason.announcement
  announced : ∀ text, .close text ∈ o.session.handed ms →
    HasLearned o ms ∧ text = s.progress.closeReason.announcement

namespace Traced

variable {o : Origin} {ms : List Move}

theorem asked_move (h : Traced o ms (o.session.after ms)) {m : Move}
    (hmem : .engineStop ∈ ((o.session.after ms).move m).doing)
    (hactive : ((o.session.after ms).move m).stage = .active) :
    ∃ before n call since, ms ++ [m] = before ++ n :: since ∧ FirstStop o before n call := by
  have hstage : (o.session.after ms).doing ≠ [] ∨ (o.session.after ms).stopCall? m ≠ none →
      (o.session.after ms).stage = .active := by
    intro hbusy
    rcases stage_move (sound_after o ms) m
      with hsame | hclosed | ⟨rfl, hd, -⟩ | ⟨rest, -, -, hs, -⟩
    · rw [← hsame]
      exact hactive
    · rw [hactive] at hclosed
      cases hclosed
    · rcases hbusy with hbusy | hbusy
      · exact absurd hd hbusy
      · rw [stopCall?, performed?, hd] at hbusy
        exact absurd rfl hbusy
    · exact hs
  rcases (chooses_move o ms m).doing hmem with hbefore | ⟨hcall, hfired⟩
  · obtain ⟨before, n, call, since, hms, hstop⟩ :=
      h.asked hbefore (hstage (.inl (List.ne_nil_of_mem hbefore)))
    refine ⟨before, n, call, since ++ [m], ?_, hstop⟩
    rw [hms, List.append_assoc]
    rfl
  · obtain ⟨call, hcall'⟩ := Option.ne_none_iff_exists'.mp hcall
    exact ⟨ms, m, call, [], rfl, (isFired_after o ms).mp hfired, hcall', hstage (.inr hcall)⟩

theorem learned_move (h : Traced o ms (o.session.after ms)) {m : Move}
    (hclosing : ((o.session.after ms).move m).stage = .closing) : HasLearned o (ms ++ [m]) := by
  rcases stage_move (sound_after o ms) m
    with hsame | hclosed | ⟨-, -, hs⟩ | ⟨rest, rfl, hd, hs, -⟩
  · exact (h.learned (hsame.symm.trans hclosing)).concat m
  · rw [hclosing] at hclosed
    cases hclosed
  · rw [hclosing] at hs
    obtain ⟨-, hs⟩ | ⟨-, hs⟩ := hs <;> cases hs
  · obtain ⟨before, n, call, since, hms, hstop⟩ :=
      h.asked (by rw [hd]; exact List.mem_cons_self) hs
    refine ⟨before, n, call, since, [], ?_, hstop, ?_, ?_⟩
    · rw [hms]
      simp
    · rw [← hms, hd]
      rfl
    · rw [← hms]
      exact hs

/-- Once the engine has learned of the stop, the reason stays. -/
theorem closeReason_move (h : HasLearned o ms) (m : Move) :
    ((o.session.after ms).move m).progress.closeReason
      = (o.session.after ms).progress.closeReason := by
  obtain ⟨before, n, call, since, rest, rfl, hlearns⟩ := h
  have hstays := closeReason_of_verdict (by rw [hlearns.verdict rest]; nofun) [m]
  rwa [after_concat] at hstays

theorem move (h : Traced o ms (o.session.after ms)) (m : Move) :
    Traced o (ms ++ [m]) ((o.session.after ms).move m) := by
  have past : ∀ {text : String},
      HasLearned o ms ∧ text = (o.session.after ms).progress.closeReason.announcement →
      HasLearned o (ms ++ [m]) ∧
        text = ((o.session.after ms).move m).progress.closeReason.announcement := by
    rintro text ⟨hlearned, htext⟩
    refine ⟨hlearned.concat m, ?_⟩
    rw [closeReason_move hlearned, htext]
  refine ⟨h.asked_move, h.learned_move, ?_, ?_⟩
  · intro text htext
    rcases announcement_move (sound_after o ms) htext with hbefore | ⟨hclosing, hreason⟩
    · exact past (h.announcing text hbefore)
    · exact past ⟨h.learned hclosing, hreason⟩
  · intro text hmem
    rw [handed, seen_concat] at hmem
    rcases List.mem_append.mp hmem with hbefore | hnow
    · exact past (h.announced text hbefore)
    · have hframe : (o.session.after ms).frame? m = some (.close text) :=
        Option.mem_toList.mp hnow
      exact past (h.announcing text (announcement_of_frame hframe))

end Traced

theorem traced_after (o : Origin) (ms : List Move) : Traced o ms (o.session.after ms) := by
  induction ms using List.reverseRecOn with
  | nil => exact ⟨nofun, nofun, nofun, nofun⟩
  | append_singleton ms m ih =>
    rw [after_concat]
    exact ih.move m

/-- What the engine learns is the first thing that ends the session. -/
theorem Learns.conditions {o : Origin} {before since : List Move} {m : Move}
    {call : Option CloseReason} (h : Learns o before m call since) (rest : List Move) :
    o.session.conditions (before ++ m :: since) = [] ∧
      (o.session.conditions (before ++ m :: (since ++ .tick :: rest))).head? = some .cancelled := by
  have hnone : o.session.conditions (before ++ m :: since) = [] :=
    conditions_eq_nil ((sound_after o _).coherent.none_of_active h.active)
  have hcondition : (o.session.after (before ++ m :: since)).condition? .tick
      = some .cancelled := by
    obtain ⟨deeds, hd⟩ := h.doing
    rw [condition?, hd]
  have hsplit : before ++ m :: (since ++ .tick :: rest)
      = before ++ m :: since ++ .tick :: rest := by simp
  refine ⟨hnone, ?_⟩
  rw [hsplit, conditions_append, hnone, Session.conditions, seen, hcondition]
  rfl

/-- **A close frame is written only if the engine has learned of a first stop that was made while
the session was active, and before anything else ended the session.**  It says the reason of that
stop, or the last that was chosen until the engine learned of it. -/
theorem announced_of_handed {o : Origin} {ms : List Move} {text : String}
    (h : .close text ∈ o.session.handed ms) : ∃ before m call since rest,
      ms = before ++ m :: (since ++ .tick :: rest) ∧ Learns o before m call since ∧
        text = (o.reasonGiven before m call since).announcement := by
  obtain ⟨⟨before, m, call, since, rest, rfl, hlearns⟩, htext⟩ :=
    (traced_after o ms).announced text h
  refine ⟨before, m, call, since, rest, rfl, hlearns, ?_⟩
  rw [htext, hlearns.closeReason rest]

end Dialogue.Session
