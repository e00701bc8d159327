/-
Two sessions abreast, of which the second was stopped before the first.

The end of both has been decided, so that the stop does nothing to the second but run the callbacks
on its stop token; in the first they stay where they are, or run later, when the first is stopped in
its turn.  As long as what they do is not felt, the two go by the same gist.  A callback that panics
is the exception: outside of a poll it does no harm, but while callbacks are left to do there the
sessions have not the same before them.  They go apart then, and meet again when the callbacks have
returned.

So `Alike` has two cases, and it is kept from move to move.  The second session runs what is not
felt as soon as it can; then each move of the first is that same move of the second, or none.
-/
import Dialogue.Proofs.Session.Choosing
import Dialogue.Proofs.Session.Gist

namespace Dialogue.Session

variable {s t : Session}

/-! ### Sessions whose end has been decided -/

/-- There is a verdict. -/
structure Judged (s : Session) : Prop where
  sound : Sound s
  verdict : s.progress.verdict ≠ none
  perm : ∀ l, (s.order l).Perm l

theorem Judged.move (h : Judged s) (m : Move) : Judged (s.move m) := by
  refine ⟨h.sound.move m, ?_, ?_⟩
  · obtain ⟨v, hv⟩ := Option.ne_none_iff_exists'.mp h.verdict
    rw [verdict_move hv m]
    nofun
  · rw [order_move]
    exact h.perm

/-- What callbacks have left to do does not matter. -/
theorem Judged.of_doing (h : Judged s) (deeds : List Deed) : Judged { s with doing := deeds } :=
  ⟨h.sound.aside (aside_doing s deeds), h.verdict, h.perm⟩

/-- There was a call to stop already. -/
structure Stopped (s : Session) : Prop extends Judged s where
  fired : s.stopSignal.isFired = true

namespace Stopped

theorem move (h : Stopped s) (m : Move) : Stopped (s.move m) := by
  refine ⟨h.toJudged.move m, ?_⟩
  rw [(Chooses.of_move h.sound h.perm m).isFired, h.fired, Bool.true_or]

theorem after (h : Stopped s) (ms : List Move) : Stopped (s.after ms) :=
  after_induction (P := fun _ t => Stopped t) h (fun _ m ih => ih.move m) ms

theorem of_doing (h : Stopped s) (deeds : List Deed) : Stopped { s with doing := deeds } :=
  ⟨h.toJudged.of_doing deeds, h.fired⟩

theorem stopSignal (h : Stopped s) : s.stopSignal = .fired := by
  have hfired := h.fired
  cases hs : s.stopSignal with
  | armed n slots =>
    rw [hs] at hfired
    cases hfired
  | fired => rfl

/-- A signal that has fired has nobody to tell. -/
theorem listed (h : Stopped s) : s.listed = [] := by
  rw [Session.listed, h.stopSignal]
  show (s.order []).flatMap _ = []
  rw [(h.perm []).eq_nil, List.flatMap_nil]

theorem fireStop (h : Stopped s) : s.fireStop = s := by
  show { s with doing := s.listed ++ s.doing, stopSignal := .fired } = s
  rw [h.listed, List.nil_append, ← h.stopSignal]

/-- **A call after another leaves the session exactly as it is.** -/
theorem call (h : Stopped s) {a : Act} (hcall : a.stop? ≠ none) : s.act a = s := by
  cases a with
  | stop => exact h.fireStop
  | stopWith r =>
    rw [act, chooseReason_of_judged h.verdict]
    exact h.fireStop
  | _ => exact absurd rfl hcall

end Stopped

/-! ### Runs with further calls -/

/-- The act of calling for a stop, with the reason that the caller names, if he names one. -/
def Act.ofCall : Option CloseReason → Act
  | none => stop
  | some reason => stopWith reason

theorem Act.stop?_ofCall (call : Option CloseReason) : (Act.ofCall call).stop? = some call := by
  cases call <;> rfl

/-- Calls to stop, one after the other. -/
def callMoves (calls : List (Option CloseReason)) : List Move :=
  calls.map fun call => .act (.ofCall call)

/-- A move.  What the session does itself may take more steps than one, or none. -/
def Move.paced : Move → Nat → List Move
  | tick, n => .replicate n tick
  | m, _ => [m]

/-- The run with further calls to stop before each of its moves and at its end.  After the calls the
session takes a number of steps, and a number of them for each step that it takes itself. -/
def withCalls (calls : Nat → List (Option CloseReason)) (rests pace : Nat → Nat) :
    List Move → List Move
  | [] => callMoves (calls 0) ++ .replicate (rests 0) .tick
  | m :: ms => callMoves (calls 0) ++ .replicate (rests 0) .tick ++ m.paced (pace 0) ++
      withCalls (fun i => calls (i + 1)) (fun i => rests (i + 1)) (fun i => pace (i + 1)) ms

namespace Stopped

theorem calls (h : Stopped s) (calls : List (Option CloseReason)) :
    s.after (callMoves calls) = s := by
  induction calls with
  | nil => rfl
  | cons call calls ih =>
    have hcall : s.act (.ofCall call) = s :=
      h.call (by rw [Act.stop?_ofCall]; exact Option.some_ne_none call)
    show (s.act (.ofCall call)).after (callMoves calls) = s
    rw [hcall, ih]

/-- **Calls after another change no run.** -/
theorem withCalls (h : Stopped s) (calls : Nat → List (Option CloseReason)) (ms : List Move) :
    s.after (Session.withCalls calls (fun _ => 0) (fun _ => 1) ms) = s.after ms := by
  induction ms generalizing s calls with
  | nil =>
    rw [Session.withCalls, List.replicate_zero, List.append_nil]
    exact h.calls _
  | cons m ms ih =>
    have hpaced : m.paced 1 = [m] := by
      cases m <;> rfl
    rw [Session.withCalls, hpaced, List.replicate_zero, List.append_nil, after_append, after_append,
      h.calls, after_cons, after_nil]
    exact ih (h.move m) _

end Stopped

/-! ### Before the first call -/

/-- Outside of polls nothing is left to do until somebody calls for a stop. -/
def IsIdle (s : Session) : Prop :=
  s.stopSignal.isFired = false → s.running = false → s.doing = []

/-- A deed that ends the poll is a panic, and leaves nothing to do. -/
theorem doing_of_halted {d : Deed} (hr : s.running = true)
    (halted : (s.perform d).running = false) : (s.perform d).doing = [] := by
  have going : (s.perform d).running = s.running → (s.perform d).doing = [] := by
    intro hsame
    rw [hsame, hr] at halted
    cases halted
  cases d with
  | act a =>
    obtain ⟨message, -, ha⟩ | ⟨message, -, ha⟩ | ⟨-, ha⟩ := act_cases s a
    · refine going ?_
      rw [perform, ha, send_eq]
      split <;> rfl
    · rw [perform, ha, doing_tearDown]
    · exact going ha.running
  | engineStop =>
    refine going ?_
    rw [perform, onStop_eq]
  | heard id => exact going rfl

/-- Before the first call no act leaves anything to do but what there was. -/
theorem doing_act_of_unfired (unfired : s.stopSignal.isFired = false) {a : Act}
    (hcall : a.stop? = none) : (s.act a).doing = s.doing ∨ (s.act a).doing = [] := by
  by_cases hsay : a.hasSay = true
  · cases a with
    | stop | stopWith r => cases hcall
    | panic message => exact .inr (doing_tearDown s _)
    | listen id acts =>
      refine .inl ?_
      rw [act, listen]
      split
      · rw [unhookStop_eq]
      · next hnone =>
        rw [Broadcast.Signal.register?_eq_none_iff, unfired] at hnone
        cases hnone
    | _ => cases hsay
  · exact .inl (doing_of_mute (by simpa using hsay))

theorem doing_of_suspended (ha : Advances s t) (hd : s.doing = []) (hr : s.running = true)
    (suspended : t.running = false) : t.doing = [] := by
  have going : t.running = s.running → t.doing = [] := by
    intro hsame
    rw [hsame, hr] at suspended
    cases suspended
  cases ha with
  | begins | connects | hands => exact going rfl
  | shuts hg =>
    rw [wireClosed_eq]
    exact hd
  | fails hf link =>
    rw [fail_eq] at going ⊢
    exact going rfl
  | asks hp hw =>
    rw [passOn_eq]
    exact hd
  | isDenied hp hw => exact doing_tearDown s _
  | concludes hp =>
    rw [conclude_eq, settleProgress_eq] at going ⊢
    exact going rfl
  | finishes hp =>
    rw [finish_eq, unhookEngine_eq]
    exact hd
  | _ => exact hd

theorem IsIdle.move (h : IsIdle s) (hs : Sound s) (perm : ∀ l, (s.order l).Perm l) (m : Move) :
    IsIdle (s.move m) := by
  intro unfired hr
  rw [(Chooses.of_move hs perm m).isFired, Bool.or_eq_false_iff] at unfired
  obtain ⟨hbefore, hcall⟩ := unfired
  have hidle := h hbefore
  generalize ht : s.move m = t at hr ⊢
  have hm := moves s m
  rw [ht] at hm
  cases hm with
  | acts a =>
    by_cases hrunning : s.running = true
    · exact doing_of_halted (d := .act a) hrunning hr
    · rcases doing_act_of_unfired hbefore (by simpa [stopCall?, performed?] using hcall)
        with hsame | hnone
      · exact hsame.trans (hidle (by simpa using hrunning))
      · exact hnone
  | @does d rest hd =>
    by_cases hrunning : s.running = true
    · exact doing_of_halted (s := { s with doing := rest }) hrunning hr
    · rw [hidle (by simpa using hrunning)] at hd
      cases hd
  | advances hd hrunning ha => exact doing_of_suspended ha hd hrunning hr
  | refuses => cases hr
  | resumes => cases hr
  | drops => cases hr
  | misses hrunning => exact hidle hrunning
  | disowns hp =>
    rw [unhookEngine_eq] at hr ⊢
    exact hidle hr
  | _ => exact hidle hr

theorem isIdle_after (o : Origin) (ms : List Move) : IsIdle (o.session.after ms) := by
  induction ms using List.reverseRecOn with
  | nil => exact fun _ _ => rfl
  | append_singleton ms m ih =>
    rw [after_concat]
    refine ih.move (sound_after o ms) ?_ m
    rw [order_after]
    exact o.order_perm

/-! ### What is not felt -/

/-- What callbacks have left to do aside. -/
def hushed (s : Session) : Session :=
  { s with doing := [] }

theorem hushed_of_gist (h : t.gist = s.gist) : t.hushed.gist = s.hushed.gist := by
  show { t.gist with doing := [] } = { s.gist with doing := [] }
  rw [h]

/-- Two sessions of one gist have the same to do that will be felt. -/
theorem doing_of_gist (h : t.gist = s.gist) :
    t.doing.filter Deed.isFelt = s.doing.filter Deed.isFelt :=
  congrArg Session.doing h

theorem filter_of_meek {deeds : List Deed} (meek : ∀ d ∈ deeds, d.isMeek = true) :
    deeds.filter Deed.isFelt = [] := by
  rw [List.filter_eq_nil_iff]
  intro d hd
  rw [Deed.isFelt, meek d hd]
  exact Bool.false_ne_true

theorem gist_fireStop (meek : ∀ d ∈ s.listed, d.isMeek = true) : s.fireStop.gist = s.gist := by
  show ({ s with doing := s.listed ++ s.doing, stopSignal := .fired } : Session).gist = s.gist
  simp only [gist, List.filter_append, filter_of_meek meek, List.nil_append]

/-- A callback on the token changes nothing but what is left to do. -/
theorem hushed_listen (s : Session) (id : Int) (acts : List Act) :
    (s.listen id acts).hushed.gist = s.hushed.gist := by
  unfold listen
  split
  · rw [unhookStop_eq]
    rfl
  · rfl

/-- An act that is felt is a panic, it is done to the connection, or it may set such an act
going. -/
theorem Act.felt_cases {a : Act} (felt : a.isMeek = false) :
    (a.isLink = true ∨ a.raised? ≠ none) ∨ ∃ id acts, a = .listen id acts := by
  cases a with
  | panic message => exact .inl (.inr (Option.some_ne_none message))
  | link change => exact .inl (.inl rfl)
  | listen id acts => exact .inr ⟨id, acts, rfl⟩
  | _ => cases felt

namespace Judged

/-- **An act that is not felt leaves the gist as it is**, and so does a call that sets off nothing
that is felt. -/
theorem gist_act (h : Judged s) {a : Act} (meek : a.isMeek = true)
    (calm : a.stop? ≠ none → ∀ d ∈ s.listed, d.isMeek = true) :
    (s.act a).gist = s.gist := by
  cases a with
  | send message => rw [act, send_of_judged h.verdict]
  | echo => rw [act, send_of_judged h.verdict]
  | stop => exact gist_fireStop (calm (Option.some_ne_none _))
  | stopWith r =>
    rw [act, chooseReason_of_judged h.verdict]
    exact gist_fireStop (calm (Option.some_ne_none _))
  | panic message => cases meek
  | link change => cases meek
  | note => simp [act, note, emit, gist, Event.isNote]
  | closed id =>
    simp only [act, createWaiter]
    split <;> split <;> rfl
  | listen id acts =>
    cases hfired : s.stopSignal.isFired with
    | true =>
      rw [act, gist_listen_of_fired hfired, filter_of_meek (deeds_are_only meek), List.nil_append]
    | false =>
      rw [act, listen]
      split
      · rw [unhookStop_eq]
        rfl
      · next hnone =>
        rw [Broadcast.Signal.register?_eq_none_iff, hfired] at hnone
        cases hnone
  | unlisten id =>
    rw [act, unlisten]
    split
    · rfl
    · rw [unhookStop_eq]
      rfl
  | tokenFired => rfl
  | debug => rfl

/-- So does a deed that is not felt, the engine's among them. -/
theorem gist_tick (h : Judged s) {d : Deed} {rest : List Deed} (hd : s.doing = d :: rest)
    (meek : d.isMeek = true)
    (calm : s.stopCall? .tick ≠ none → ∀ d ∈ s.listed, d.isMeek = true) :
    (s.move .tick).gist = s.gist := by
  have hrest := h.of_doing rest
  have hgist : ({ s with doing := rest } : Session).gist = s.gist := by
    rw [gist_doing]
    show { s.gist with doing := rest.filter Deed.isFelt } = s.gist
    rw [gist, hd, List.filter_cons_of_neg (by rw [Deed.isFelt, meek]; exact Bool.false_ne_true)]
  rw [tick_of_cons hd, ← hgist]
  cases d with
  | act a =>
    refine hrest.gist_act meek fun hcall => calm ?_
    rwa [stopCall?, performed?, hd]
  | engineStop => rw [perform, hrest.sound.onStop_of_judged hrest.verdict]
  | heard id => rfl

end Judged

/-- **What is felt in one of two sessions of one gist is felt in the other**, if a callback on the
token would run at once in both. -/
theorem gist_act_of_felt (h : t.gist = s.gist) {a : Act} (felt : a.isMeek = false)
    (fired : (∃ id acts, a = .listen id acts) →
      s.stopSignal.isFired = true ∧ t.stopSignal.isFired = true) :
    (t.act a).gist = (s.act a).gist := by
  rcases Act.felt_cases felt with loud | ⟨id, acts, rfl⟩
  · rw [gist_act_of_loud t loud, h, ← gist_act_of_loud s loud]
  · obtain ⟨hs, ht⟩ := fired ⟨id, acts, rfl⟩
    rw [act, act, gist_listen_of_fired hs, gist_listen_of_fired ht, h]

/-! ### Catching up -/

/-- A session can do what will not be felt ahead of everything else. -/
theorem Stopped.catches_up (h : Stopped t) : ∃ n, (t.after (.replicate n .tick)).gist = t.gist ∧
    ∀ d ∈ (t.after (.replicate n .tick)).doing.head?, d.isMeek = false := by
  induction hn : t.remaining using Nat.strongRecOn generalizing t with
  | _ k ih =>
    cases hd : t.doing with
    | nil =>
      refine ⟨0, rfl, ?_⟩
      rw [List.replicate_zero, after_nil, hd]
      nofun
    | cons d rest =>
      cases hmeek : d.isMeek with
      | false =>
        refine ⟨0, rfl, ?_⟩
        rw [List.replicate_zero, after_nil, hd]
        rintro e ⟨⟩
        exact hmeek
      | true =>
        have hlt : (t.move .tick).remaining < k := by
          rw [tick_of_cons hd, ← hn]
          exact remaining_perform_lt h.perm hd
        obtain ⟨n, hgist, hhead⟩ := ih _ hlt (h.move .tick) rfl
        refine ⟨n + 1, ?_⟩
        rw [List.replicate_succ, after_cons]
        refine ⟨hgist.trans (h.gist_tick hd hmeek ?_), hhead⟩
        rw [h.listed]
        exact fun _ => nofun

section CaughtUp

variable {deeds : List Deed} (hhead : ∀ d ∈ deeds.head?, d.isMeek = false)

include hhead

/-- Whoever has nothing in front of what will be felt does that next. -/
theorem next_of_caughtUp {d : Deed} {rest : List Deed} (h : deeds.filter Deed.isFelt = d :: rest) :
    ∃ others, deeds = d :: others ∧ others.filter Deed.isFelt = rest := by
  cases deeds with
  | nil => cases h
  | cons e others =>
    rw [List.filter_cons_of_pos (by rw [Deed.isFelt, hhead e rfl]; rfl)] at h
    obtain ⟨rfl, hrest⟩ := List.cons.inj h
    exact ⟨others, rfl, hrest⟩

/-- Whoever has nothing to do that will be felt, and nothing in front of that, has nothing to do. -/
theorem nothing_of_caughtUp (h : deeds.filter Deed.isFelt = []) : deeds = [] := by
  cases deeds with
  | nil => rfl
  | cons d rest =>
    rw [List.filter_cons_of_pos (by rw [Deed.isFelt, hhead d rfl]; rfl)] at h
    cases h

end CaughtUp

/-! ### Callbacks outside of polls -/

/-- The future is not being polled, and what callbacks have left to do leaves the connection
alone. -/
structure Outside (s : Session) : Prop where
  running : s.running = false
  unlinked : ∀ d ∈ s.doing, d.isUnlinked = true

namespace Outside

theorem of_done (hr : s.running = false) (hd : s.doing = []) : Outside s := by
  refine ⟨hr, fun d hmem => ?_⟩
  rw [hd] at hmem
  cases hmem

/-- A session with nothing left to do that will be felt, outside of polls. -/
theorem of_gist (h : t.gist = s.gist) (hr : s.running = false) (hd : s.doing = []) : Outside t := by
  refine ⟨(congrArg Session.running h :).trans hr, fun d hmem => Deed.isUnlinked_of_meek ?_⟩
  have hdoing := doing_of_gist h
  rw [hd, List.filter_nil, List.filter_eq_nil_iff] at hdoing
  simpa [Deed.isFelt] using hdoing d hmem

/-- An act that lists nothing and is not felt. -/
theorem of_mute (h : Outside s) (hs : Judged s) {a : Act} (mute : a.hasSay = false)
    (meek : a.isMeek = true) : Outside (s.act a) ∧ (s.act a).hushed.gist = s.hushed.gist := by
  have hgist := hs.gist_act meek fun hcall => absurd (Act.stop?_of_mute mute) hcall
  refine ⟨⟨(congrArg Session.running hgist :).trans h.running, ?_⟩, hushed_of_gist hgist⟩
  rw [doing_of_mute mute]
  exact h.unlinked

/-- A callback that panics outside of polls leaves nothing to do, and that is all. -/
theorem tick (h : Outside s) (hs : Stopped s) {d : Deed} {rest : List Deed}
    (hd : s.doing = d :: rest) :
    Outside (s.move .tick) ∧ (s.move .tick).hushed.gist = s.hushed.gist := by
  have hunlinked := h.unlinked
  rw [hd, List.forall_mem_cons] at hunlinked
  obtain ⟨hfirst, hrest⟩ := hunlinked
  have hpopped := hs.of_doing rest
  have unchanged : Outside { s with doing := rest } := ⟨h.running, hrest⟩
  rw [tick_of_cons hd]
  cases d with
  | heard id => exact ⟨⟨h.running, hrest⟩, rfl⟩
  | engineStop =>
    rw [perform, hpopped.sound.onStop_of_judged hpopped.verdict]
    exact ⟨unchanged, rfl⟩
  | act a =>
    rw [perform]
    cases a with
    | link change => cases hfirst
    | stop =>
      rw [hpopped.call (a := .stop) (Option.some_ne_none _)]
      exact ⟨unchanged, rfl⟩
    | stopWith r =>
      rw [hpopped.call (a := .stopWith r) (Option.some_ne_none _)]
      exact ⟨unchanged, rfl⟩
    | panic message =>
      rw [act, tearDown_of_not_running (s := { s with doing := rest }) h.running]
      refine ⟨⟨h.running, ?_⟩, rfl⟩
      intro d hmem
      cases hmem
    | listen id acts =>
      refine ⟨⟨(aside_listen _ id acts).running.trans h.running, ?_⟩,
        hushed_listen _ id acts⟩
      rw [act, listen, (Broadcast.Signal.register?_eq_none_iff _ _).mpr hpopped.fired]
      intro d hmem
      rcases List.mem_append.mp hmem with hnew | hleft
      · exact deeds_are_only hfirst d hnew
      · exact hrest d hleft
    | _ => exact unchanged.of_mute hpopped.toJudged rfl rfl

/-- The callbacks return. -/
theorem returns (h : Outside t) (ht : Stopped t) :
    ∃ n, (t.after (.replicate n .tick)).doing = [] ∧
      (t.after (.replicate n .tick)).hushed.gist = t.hushed.gist := by
  induction hn : t.remaining using Nat.strongRecOn generalizing t with
  | _ k ih =>
    cases hd : t.doing with
    | nil => exact ⟨0, hd, rfl⟩
    | cons d rest =>
      obtain ⟨houtside, hgist⟩ := h.tick ht hd
      have hlt : (t.move .tick).remaining < k := by
        rw [tick_of_cons hd, ← hn]
        exact remaining_perform_lt ht.perm hd
      obtain ⟨n, hdone, hsame⟩ := ih _ hlt houtside (ht.move .tick) rfl
      refine ⟨n + 1, ?_⟩
      rw [List.replicate_succ, after_cons]
      exact ⟨hdone, hsame.trans hgist⟩

end Outside

/-! ### Where further calls do no harm -/

/-- What callbacks have left to do is done before anything else happens. -/
def Returns : Session → List Move → Prop
  | _, [] => True
  | s, m :: ms => s.doing = [] ∨ m = .tick ∧ Returns (s.move m) ms

theorem Returns.of_idle (hd : s.doing = []) (ms : List Move) : Returns s ms := by
  cases ms with
  | nil => trivial
  | cons m ms => exact .inl hd

/-- A run bears it if every callback that is put on the stop token is run at once, and if none is
run when the run itself first calls for a stop. -/
structure Spares (s : Session) (ns : List Move) : Prop where
  listens : ∀ before m rest id acts, ns = before ++ m :: rest →
    (s.after before).stopSignal.isFired = false →
    (s.after before).performed? m = some (.listen id acts) →
    (s.after before).Bears (Listener.token id acts).deeds
  /-- Outside of polls, callbacks that are felt return before anything else happens. -/
  stops : ∀ before m rest, ns = before ++ m :: rest →
    (s.after before).stopSignal.isFired = false → (s.after before).stopCall? m ≠ none →
    (s.after before).Bears (s.after before).listed ∧
      ((∀ d ∈ (s.after before).listed, d.isMeek = true) ∨
        Returns ((s.after before).move m) rest)

namespace Spares

/-- Nobody calls for a stop, puts a callback on the token, or panics. -/
theorem of_mute {ns : List Move} (mute : ∀ a ∈ seen move performed? s ns, a.hasSay = false) :
    Spares s ns := by
  have hmute : ∀ before m rest a, ns = before ++ m :: rest →
    (s.after before).performed? m = some a → a.hasSay = false := by
    rintro before m rest a rfl hperformed
    refine mute a ?_
    rw [seen_append, seen, List.mem_append, List.mem_append]
    exact .inr (.inl (Option.mem_toList.mpr hperformed))
  refine ⟨?_, ?_⟩
  · intro before m rest id acts heq _ hperformed
    cases hmute before m rest _ heq hperformed
  · intro before m rest heq _ hasked
    refine absurd ?_ hasked
    rw [stopCall?]
    cases hperformed : (s.after before).performed? m with
    | none => rfl
    | some a => exact Act.stop?_of_mute (hmute before m rest a heq hperformed)

theorem tail {m : Move} {ms : List Move} (h : Spares s (m :: ms)) : Spares (s.move m) ms where
  listens before n rest id acts heq := h.listens (m :: before) n rest id acts (by rw [heq]; rfl)
  stops before n rest heq := h.stops (m :: before) n rest (by rw [heq]; rfl)

end Spares

/-- What is felt does not run in the middle of a poll, if the session bears it. -/
theorem Bears.not_running {deeds : List Deed} (h : s.Bears deeds)
    (felt : ¬ ∀ d ∈ deeds, d.isMeek = true) : s.running = false := by
  by_contra hr
  exact felt (h.meek (by simpa using hr))

/-- If a call sets off anything that is felt, it is the first. -/
theorem Judged.unfired (h : Judged s) (felt : ¬ ∀ d ∈ s.listed, d.isMeek = true) :
    s.stopSignal.isFired = false := by
  by_contra hfired
  refine felt ?_
  intro d hmem
  rw [Stopped.listed ⟨h, by simpa using hfired⟩] at hmem
  cases hmem

/-- After an earlier call nothing is set off any more. -/
theorem Stopped.bears (h : Stopped s) : s.Bears s.listed := by
  rw [h.listed]
  exact ⟨nofun, fun _ => nofun⟩

theorem Stopped.spares (h : Stopped s) (ns : List Move) : Spares s ns := by
  have fired : ∀ before, (s.after before).stopSignal.isFired ≠ false := by
    intro before unfired
    rw [(h.after before).fired] at unfired
    cases unfired
  exact ⟨fun before _ _ _ _ _ unfired => absurd unfired (fired before),
    fun before _ _ _ unfired => absurd unfired (fired before)⟩

/-! ### Side by side -/

/-- Two sessions between two moves, of which the second was stopped, with what the first has before
it. -/
inductive Alike (s t : Session) (ns : List Move) : Prop
  | same (gist : t.gist = s.gist)
  /-- Outside of polls, callbacks that may panic run in one of them or in both. -/
  | apart (here : Outside s) (there : Outside t) (gist : t.hushed.gist = s.hushed.gist)
      (returns : Returns s ns)

/-- Two such sessions when the second has done what it does on its own. -/
inductive Level (s t : Session) (ns : List Move) : Prop
  | same (gist : t.gist = s.gist) (head : ∀ d ∈ t.doing.head?, d.isMeek = false)
  | apart (here : Outside s) (busy : s.doing ≠ []) (done : t.doing = [])
      (gist : t.hushed.gist = s.hushed.gist) (returns : Returns s ns)

theorem hushed_of_done (hd : s.doing = []) : s.hushed = s := by
  cases s
  cases hd
  rfl

namespace Alike

variable {ns : List Move}

theorem hushed (h : Alike s t ns) : t.hushed.gist = s.hushed.gist := by
  cases h with
  | same gist => exact hushed_of_gist gist
  | apart here there gist returns => exact gist

theorem settles (h : Alike s t ns) (ht : Stopped t) :
    ∃ n, Level s (t.after (.replicate n .tick)) ns := by
  cases h with
  | same gist =>
    obtain ⟨n, hgist, hhead⟩ := ht.catches_up
    exact ⟨n, .same (hgist.trans gist) hhead⟩
  | apart here there gist returns =>
    obtain ⟨n, hdone, hgist⟩ := there.returns ht
    refine ⟨n, ?_⟩
    by_cases hbusy : s.doing = []
    · have hsame := hgist.trans gist
      rw [hushed_of_done hdone, hushed_of_done hbusy] at hsame
      refine .same hsame ?_
      rw [hdone]
      nofun
    · exact .apart here hbusy hdone (hgist.trans gist) returns

end Alike

theorem Level.alike {ns : List Move} (h : Level s t ns) : Alike s t ns := by
  cases h with
  | same gist head => exact .same gist
  | apart here busy done gist returns =>
    have hr : t.running = false := (congrArg Session.running gist :).trans here.running
    exact .apart here (.of_done hr done) gist returns

/-! ### One move -/

section OneMove

variable {m : Move} {ms : List Move}

/-- An act that would be felt in both of them is felt alike. -/
theorem gist_act_abreast (ht : Stopped t) (h : t.gist = s.gist) {a : Act} (felt : a.isMeek = false)
    (listens : ∀ id acts, a = .listen id acts →
      s.stopSignal.isFired = true ∨ (Act.listen id acts).isMeek = true) :
    (t.act a).gist = (s.act a).gist := by
  refine gist_act_of_felt h felt ?_
  rintro ⟨id, acts, rfl⟩
  refine ⟨(listens id acts rfl).resolve_right ?_, ht.fired⟩
  rw [felt]
  exact Bool.false_ne_true

/-- The next deed of the first session is done by the second, if it is felt, and was done before if
it is not. -/
theorem gist_deed_abreast (hs : Judged s) (ht : Stopped t) (h : t.gist = s.gist)
    (head : ∀ d ∈ t.doing.head?, d.isMeek = false) {d : Deed} {rest : List Deed}
    (hd : s.doing = d :: rest)
    (listens : ∀ id acts, d = .act (.listen id acts) →
      s.stopSignal.isFired = true ∨ (Act.listen id acts).isMeek = true)
    (calm : s.stopCall? .tick ≠ none → ∀ d ∈ s.listed, d.isMeek = true) :
    ∃ k, (t.after (Move.tick.paced k)).gist = (s.move .tick).gist := by
  cases hmeek : d.isMeek with
  | true =>
    refine ⟨0, ?_⟩
    rw [hs.gist_tick hd hmeek calm]
    exact h
  | false =>
    have hdoing := doing_of_gist h
    rw [hd, List.filter_cons_of_pos (by rw [Deed.isFelt, hmeek]; rfl)] at hdoing
    obtain ⟨others, hd', hothers⟩ := next_of_caughtUp head hdoing
    have hpopped : ({ t with doing := others } : Session).gist
        = ({ s with doing := rest } : Session).gist := by
      rw [gist_doing t others, gist_doing s rest, h, hothers]
    refine ⟨1, ?_⟩
    show (t.move .tick).gist = _
    rw [tick_of_cons hd', tick_of_cons hd]
    cases d with
    | act a =>
      refine gist_act_abreast (ht.of_doing others) hpopped hmeek fun id acts heq => ?_
      exact listens id acts (congrArg Deed.act heq)
    | engineStop => cases hmeek
    | heard id => cases hmeek

/-- **A move that sets off nothing that is felt in only one of them is made by both.** -/
theorem gist_paced (hs : Judged s) (ht : Stopped t) (h : t.gist = s.gist)
    (head : ∀ d ∈ t.doing.head?, d.isMeek = false)
    (listens : ∀ id acts, s.performed? m = some (.listen id acts) →
      s.stopSignal.isFired = true ∨ (Act.listen id acts).isMeek = true)
    (calm : s.stopCall? m ≠ none → ∀ d ∈ s.listed, d.isMeek = true) :
    ∃ k, (t.after (m.paced k)).gist = (s.move m).gist := by
  have others : (∀ a, m ≠ .act a) → m ≠ .tick →
      ∃ k, (t.after (m.paced k)).gist = (s.move m).gist := by
    intro hact htick
    refine ⟨0, ?_⟩
    have hpaced : m.paced 0 = [m] := by
      cases m with
      | tick => exact absurd rfl htick
      | _ => rfl
    rw [hpaced, after_cons, after_nil, gist_move t htick hact, gist_move s htick hact, h]
  cases m with
  | act a =>
    refine ⟨0, ?_⟩
    show (t.act a).gist = (s.act a).gist
    cases hmeek : a.isMeek with
    | true =>
      have hcalm : a.stop? ≠ none → ∀ d ∈ t.listed, d.isMeek = true := by
        intro _ d hmem
        rw [ht.listed] at hmem
        cases hmem
      rw [ht.toJudged.gist_act hmeek hcalm, hs.gist_act hmeek calm, h]
    | false =>
      exact gist_act_abreast ht h hmeek fun id acts heq => listens id acts (congrArg some heq)
  | tick =>
    cases hd : s.doing with
    | cons d rest =>
      refine gist_deed_abreast hs ht h head hd ?_ calm
      rintro id acts rfl
      exact listens id acts (by rw [performed?, hd]; rfl)
    | nil =>
      cases hr : s.running with
      | true =>
        have hdoing := doing_of_gist h
        rw [hd] at hdoing
        have hr' : t.running = true := (congrArg Session.running h :).trans hr
        refine ⟨1, ?_⟩
        show (t.move .tick).gist = _
        rw [tick_of_running (nothing_of_caughtUp head hdoing) hr', tick_of_running hd hr,
          gist_advance, h, ← gist_advance]
      | false =>
        refine ⟨0, ?_⟩
        rw [tick_of_quiet hd hr]
        exact h
  | _ =>
    refine others ?_ ?_
    · intro a heq
      cases heq
    · intro heq
      cases heq

/-- Where nothing is left to do, an act that is performed is someone else's. -/
theorem eq_act_of_performed {a : Act} (hd : s.doing = []) (h : s.performed? m = some a) :
    m = .act a := by
  cases m with
  | act b =>
    cases h
    rfl
  | tick =>
    rw [performed?, hd] at h
    cases h
  | _ => cases h

/-- A callback is put on the token of the first session, and runs at once in the second. -/
theorem alike_of_listen (hd : s.doing = []) (hr : s.running = false)
    (unfired : s.stopSignal.isFired = false) (ht : Stopped t) (h : t.gist = s.gist) {id : Int}
    {acts : List Act} (unlinked : ∀ d ∈ (Listener.token id acts).deeds, d.isUnlinked = true) :
    Alike (s.listen id acts) (t.listen id acts) ms := by
  have hdone : (s.listen id acts).doing = [] := by
    rcases doing_act_of_unfired (a := .listen id acts) unfired rfl with hsame | hnone
    · exact hsame.trans hd
    · exact hnone
  have there := Outside.of_gist h hr hd
  refine .apart (.of_done ((aside_listen s id acts).running.trans hr) hdone)
    ⟨(aside_listen t id acts).running.trans there.running, ?_⟩ ?_ (.of_idle hdone ms)
  · rw [listen, (Broadcast.Signal.register?_eq_none_iff _ _).mpr ht.fired]
    intro d hmem
    rcases List.mem_append.mp hmem with hnew | hleft
    · exact unlinked d hnew
    · exact there.unlinked d hleft
  · rw [hushed_listen, hushed_listen, hushed_of_gist h]

/-- The first session is stopped in its turn, which the second does not notice. -/
theorem alike_of_call (hs : Judged s) (hd : s.doing = []) (hr : s.running = false) (ht : Stopped t)
    (h : t.gist = s.gist) {a : Act} (hcall : a.stop? ≠ none)
    (unlinked : ∀ d ∈ s.listed, d.isUnlinked = true) (returns : Returns (s.act a) ms) :
    Alike (s.act a) (t.act a) ms := by
  have hfires : s.act a = s.fireStop := by
    cases a with
    | stop => rfl
    | stopWith r => rw [act, chooseReason_of_judged hs.verdict]
    | _ => exact absurd rfl hcall
  rw [ht.call hcall]
  rw [hfires] at returns ⊢
  refine .apart ⟨hr, ?_⟩ (.of_gist h hr hd) ((hushed_of_gist h).trans rfl) returns
  rw [doing_fireStop, hd, List.append_nil]
  exact unlinked

/-- **Each move keeps the two sessions alike.** -/
theorem Level.step (h : Level s t (m :: ms)) (hs : Judged s) (idle : IsIdle s) (ht : Stopped t)
    (spares : Spares s (m :: ms)) : ∃ k, Alike (s.move m) (t.after (m.paced k)) ms := by
  cases h with
  | apart here busy done gist returns =>
    -- the first is in the middle of a call that the second has behind it
    have hfired : s.stopSignal.isFired = true := by
      by_contra unfired
      exact busy (idle (by simpa using unfired) here.running)
    obtain ⟨rfl, hreturns⟩ := returns.resolve_left busy
    obtain ⟨d, rest, hd⟩ := List.exists_cons_of_ne_nil busy
    obtain ⟨houtside, hgist⟩ := here.tick ⟨hs, hfired⟩ hd
    have hr : t.running = false := (congrArg Session.running gist :).trans here.running
    exact ⟨0, .apart houtside (.of_done hr done) (gist.trans hgist.symm) hreturns⟩
  | same gist head =>
    by_cases hlisten : ∃ id acts, s.performed? m = some (.listen id acts) ∧
        s.stopSignal.isFired = false ∧ (Act.listen id acts).isMeek = false
    · obtain ⟨id, acts, hperformed, unfired, hfelt⟩ := hlisten
      have hbears := spares.listens [] m ms id acts rfl unfired hperformed
      have hr : s.running = false := by
        refine hbears.not_running fun hmeek => ?_
        have honly := actsAreOnly_iff.mpr fun a ha =>
          hmeek (.act a) (List.mem_cons_of_mem _ (List.mem_map_of_mem ha))
        rw [Act.isMeek, Act.isOnly] at hfelt
        rw [honly] at hfelt
        cases hfelt
      have hd := idle unfired hr
      obtain rfl := eq_act_of_performed hd hperformed
      exact ⟨0, alike_of_listen hd hr unfired ht gist hbears.unlinked⟩
    by_cases hcall : s.stopCall? m ≠ none ∧ ¬ ∀ d ∈ s.listed, d.isMeek = true
    · obtain ⟨hasked, hfelt⟩ := hcall
      obtain ⟨hbears, hreturns⟩ := spares.stops [] m ms rfl (hs.unfired hfelt) hasked
      have hr := hbears.not_running hfelt
      have hd := idle (hs.unfired hfelt) hr
      obtain ⟨a, hperformed⟩ := Option.ne_none_iff_exists'.mp
        (fun hnone => hasked (by rw [stopCall?, hnone]; rfl) : s.performed? m ≠ none)
      obtain rfl := eq_act_of_performed hd hperformed
      exact ⟨0, alike_of_call hs hd hr ht gist hasked hbears.unlinked
        (hreturns.resolve_left hfelt)⟩
    · have listens : ∀ id acts, s.performed? m = some (.listen id acts) →
          s.stopSignal.isFired = true ∨ (Act.listen id acts).isMeek = true := by
        intro id acts hperformed
        by_contra hne
        simp only [not_or, Bool.not_eq_true] at hne
        exact hlisten ⟨id, acts, hperformed, hne.1, hne.2⟩
      obtain ⟨k, hgist⟩ := gist_paced hs ht gist head listens (by simpa using hcall)
      exact ⟨k, .same hgist⟩

end OneMove

/-! ### Every move -/

/-- Alike they are after every move, where the second session has further calls made to it, which it
does not notice, and may take other steps of its own. -/
theorem Alike.run {ns : List Move} (h : Alike s t ns) (hs : Judged s) (idle : IsIdle s)
    (ht : Stopped t) (spares : Spares s ns) (calls : Nat → List (Option CloseReason)) :
    ∃ rests pace, ∀ i, Stopped (t.after (withCalls calls rests pace (ns.take i))) ∧
      Alike (s.after (ns.take i)) (t.after (withCalls calls rests pace (ns.take i)))
        (ns.drop i) := by
  induction ns generalizing s t calls with
  | nil =>
    refine ⟨fun _ => 0, fun _ => 0, fun i => ?_⟩
    rw [List.take_nil, List.drop_nil]
    show Stopped (t.after (_ ++ [])) ∧ Alike s (t.after (_ ++ [])) []
    rw [List.append_nil, ht.calls]
    exact ⟨ht, h⟩
  | cons m ms ih =>
    obtain ⟨n, hlevel⟩ := h.settles ht
    obtain ⟨k, hstep⟩ := hlevel.step hs idle (ht.after _) spares
    have hnext := (ht.after (.replicate n .tick)).after (m.paced k)
    obtain ⟨rests, pace, hrest⟩ := ih hstep (hs.move m) (idle.move hs.sound hs.perm m) hnext
      spares.tail fun i => calls (i + 1)
    refine ⟨fun i => i.casesOn n rests, fun i => i.casesOn k pace, fun i => ?_⟩
    cases i with
    | zero =>
      show Stopped (t.after (_ ++ .replicate n .tick)) ∧
        Alike s (t.after (_ ++ .replicate n .tick)) _
      rw [after_append, ht.calls]
      exact ⟨ht.after _, hlevel.alike⟩
    | succ i =>
      rw [List.take_succ_cons, List.drop_succ_cons, withCalls, after_append, after_append,
        after_append, ht.calls, after_cons]
      exact hrest i

end Dialogue.Session
