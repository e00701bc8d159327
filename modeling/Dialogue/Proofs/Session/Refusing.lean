/-
What is sent to a session that has ended.

`send` looks for a verdict, and a call to stop does not enter one: it fires the stop signal, on
which the engine is registered, and the verdict is the engine's.  So there are two laws.  From a
verdict on nothing that is sent is accepted, and the outbox only empties; this needs nothing but
that a verdict stays.  And a stop that has returned has entered a verdict, which needs everything
that `Hooked` says: the engine was still registered, its deed is done, and no panic took the deed
away.

An engine that is dropped before it was handed over takes its registration along.  No stop reaches
it then, nobody else enters a verdict, and the outbox accepts for ever what nobody will ever write.
That is `Orphaned`, and it is preserved by every move.
-/
import Dialogue.Proofs.Session.Opening

namespace Dialogue.Session

variable {s t : Session}

/-! ### The outbox grows by what is accepted -/

/-- Nothing is buffered in a session that closes. -/
theorem suffix_of_closing (hs : Sound t) (h : t.stage = .closing ∨ t.stage = .closed)
    (values : List String) : t.outbox.values <:+ values := by
  rw [hs.emptied h]
  exact List.nil_suffix

theorem values_advances (hs : Sound s) (hr : s.running = true) (ha : Advances s t) :
    t.outbox.values <:+ s.outbox.values := by
  have hsound := hs.advances hr ha
  cases ha with
  | shuts hg =>
    rewrite [wireClosed_eq]
    exact List.suffix_rfl
  | fails hf link =>
    refine suffix_of_closing hsound (.inr ?_) _
    rw [fail_eq]
    rfl
  | asks hp hw =>
    obtain ⟨-, -, -, -, hvalues, -⟩ := Handoff.Queue.of_wait? (fun _ => rfl) hw
    rw [passOn_eq]
    show List.IsSuffix _ _
    rewrite [← hvalues]
    exact List.suffix_rfl
  | isDenied hp hw => exact absurd hw (hs.wait?_ne_none hp)
  | takes hp ho =>
    obtain ⟨d, r, hd, hpolled, rfl⟩ | ⟨-, hpolled, -⟩ := hs.poll_waiting hp ho
    · cases hpolled
      obtain ⟨-, hd', -⟩ | ⟨-, a, rest, hvalues, -, rfl⟩ := Handoff.Queue.of_nextResult? hd
      · cases hd'
      · rw [hvalues]
        exact List.suffix_cons a rest
    · cases hpolled
  | parts hp ho hd =>
    obtain ⟨-, rfl⟩ := hs.ending_of_parts hp ho hd
    exact List.suffix_rfl
  | idles hp ho =>
    obtain ⟨d, r, -, hpolled, -⟩ | ⟨-, -, w, hw, rfl⟩ := hs.poll_waiting hp ho
    · cases hpolled
    · exact List.suffix_rfl
  | concludes hp =>
    refine suffix_of_closing hsound (.inr ?_) _
    rw [conclude_eq, settleProgress_eq]
    rfl
  | finishes hp =>
    rewrite [finish_eq, unhookEngine_eq]
    exact List.suffix_rfl
  | _ => exact List.suffix_rfl

/-- What is sent is accepted and buffered, or it is dropped, and there is a verdict. -/
theorem send_cases (hs : Sound s) (message : String) :
    s.progress.verdict = none ∧
        (s.send message).outbox.values = s.outbox.values ++ [message] ∨
      s.progress.verdict ≠ none ∧ s.send message = s := by
  by_cases hv : s.progress.verdict = none
  · have hopen : s.progress.isEnding = false := by
      rcases hs.coherent.active_of_none hv with hst | hst | hst <;>
        simp [Progress.isEnding, hv, hst]
    refine .inl ⟨hv, ?_⟩
    rw [send_eq, if_neg (by rw [hopen]; exact Bool.false_ne_true)]
    exact Handoff.Queue.values_push _ _
  · exact .inr ⟨hv, send_of_judged hv message⟩

theorem values_act (hs : Sound s) (a : Act) :
    (s.act a).outbox.values <:+ s.outbox.values ++ (s.accepts? a).toList := by
  have unsent : a.sent? = none → (s.act a).outbox.values <:+ s.outbox.values →
      (s.act a).outbox.values <:+ s.outbox.values ++ (s.accepts? a).toList := by
    intro hsent h
    rw [accepts?, hsent, ite_self]
    exact (List.append_nil s.outbox.values).symm ▸ h
  obtain ⟨message, hsent, ha⟩ | ⟨message, rfl, ha⟩ | ⟨hsent, ha⟩ := act_cases s a
  · rw [ha, accepts?, hsent]
    obtain ⟨hv, hvalues⟩ | ⟨hv, hsame⟩ := send_cases hs message
    · rewrite [if_pos hv, hvalues]
      exact List.suffix_rfl
    · rw [if_neg hv, hsame]
      exact (List.append_nil s.outbox.values).symm ▸ List.suffix_rfl
  · refine unsent rfl ?_
    rw [ha]
    cases hr : s.running with
    | false =>
      rewrite [tearDown_of_not_running hr]
      exact List.suffix_rfl
    | true =>
      have hsound : Sound (s.tearDown (.raised message)) := hs.tearDown message
      have hfits := hsound.fits
      rw [(tearDown_of_running hr _).position] at hfits
      exact suffix_of_closing hsound (.inr hfits) _
  · refine unsent hsent ?_
    rewrite [ha.outbox]
    exact List.suffix_rfl

/-- The future and the engine's own deed take out of the outbox, and put nothing in. -/
theorem values_move_of_idle (hs : Sound s) {m : Move}
    (hact : ∀ a, s.performed? m ≠ some a) : (s.move m).outbox.values <:+ s.outbox.values := by
  have hm := moves s m
  generalize s.move m = t at hm
  cases hm with
  | acts a => exact absurd rfl (hact a)
  | @does d rest hd =>
    cases d with
    | act a => exact absurd (by rw [performed?, hd]; rfl) (hact a)
    | engineStop =>
      rw [perform, outbox_onStop]
      split
      · rw [Handoff.Queue.values_stop]
        exact List.nil_suffix
      · exact List.suffix_rfl
    | heard id => exact List.suffix_rfl
  | advances hd hr ha => exact values_advances hs hr ha
  | drops hr hp =>
    rw [releaseOperations_eq]
    show List.IsSuffix (releasedOutbox s).values _
    unfold releasedOutbox
    split
    · rewrite [Handoff.Queue.values_withdraw]
      exact List.suffix_rfl
    · exact List.suffix_rfl
  | disowns hp =>
    rewrite [unhookEngine_eq]
    exact List.suffix_rfl
  | _ => exact List.suffix_rfl

/-- **The outbox grows by the message that is accepted in a move, and by nothing else.** -/
theorem values_move (hs : Sound s) (m : Move) :
    (s.move m).outbox.values <:+ s.outbox.values ++ (s.acceptance? m).toList := by
  cases ha : s.performed? m with
  | some a =>
    obtain ⟨deeds, hmove, -⟩ := move_of_performed ha
    rw [hmove, acceptance?_eq, ha, Option.bind_some]
    exact values_act (hs.aside (aside_doing s deeds)) a
  | none =>
    rw [acceptance?_eq, ha, Option.bind_none, Option.toList_none, List.append_nil]
    exact values_move_of_idle hs fun a h => by rw [ha] at h; cases h

/-- From a verdict on the outbox only empties. -/
theorem values_after_of_judged (hs : Sound s) (hv : s.progress.verdict ≠ none) (ns : List Move) :
    (s.after ns).outbox.values <:+ s.outbox.values := by
  obtain ⟨v, hsome⟩ := Option.ne_none_iff_exists'.mp hv
  refine after_induction (P := fun _ t => t.outbox.values <:+ s.outbox.values) List.suffix_rfl ?_ ns
  intro ns m h
  have hnone : (s.after ns).acceptance? m = none := by
    have hall := accepted_eq_nil (verdict_after hsome ns) [m]
    rw [accepted, seen, seen, List.append_nil, Option.toList_eq_nil_iff] at hall
    exact hall
  have hmove := values_move (hs.after ns) m
  rw [hnone, Option.toList_none, List.append_nil] at hmove
  exact hmove.trans h

/-! ### Who is registered on the stop signal -/

theorem slots_elim {signal : Broadcast.Signal Listener} {hook : Option Nat} {slot : Nat × Listener}
    (h : slot ∈ (hook.elim signal signal.disconnect).slots) : slot ∈ signal.slots := by
  cases hook with
  | none => exact h
  | some id =>
    rw [Option.elim_some, Broadcast.Signal.slots_disconnect] at h
    exact (List.mem_filter.mp h).1

/-- An act registers callbacks of tokens only. -/
theorem slots_act {a : Act} {slot : Nat × Listener} (h : slot ∈ (s.act a).stopSignal.slots) :
    slot ∈ s.stopSignal.slots ∨ slot.2 ≠ .engine := by
  cases a with
  | send message =>
    rw [act, send_eq] at h
    split at h <;> exact .inl h
  | echo =>
    rw [act, send_eq] at h
    split at h <;> exact .inl h
  | stop => cases h
  | stopWith r => cases h
  | panic message =>
    obtain hsame | ⟨id, hless⟩ := stopSignal_tearDown s (.raised message)
    · rw [act, hsame] at h
      exact .inl h
    · rw [act, hless, Broadcast.Signal.slots_disconnect] at h
      exact .inl (List.mem_filter.mp h).1
  | closed id =>
    simp only [act, createWaiter] at h
    split at h <;> split at h <;> exact .inl h
  | listen id acts =>
    simp only [act, listen, unhookStop_eq] at h
    split at h
    · next hook signal hreg =>
      have hslot := slots_elim h
      rw [Broadcast.Signal.slots_of_register? hreg] at hslot
      rcases List.mem_append.mp hslot with hold | hnew
      · exact .inl hold
      · rw [List.mem_singleton.mp hnew]
        exact .inr Listener.noConfusion
    · exact .inl h
  | unlisten id =>
    simp only [act, unlisten, unhookStop_eq] at h
    split at h
    · exact .inl h
    · exact .inl (slots_elim h)
  | link a =>
    simp only [act, onLink, touch_eq] at h
    exact .inl h
  | _ => exact .inl h

theorem slots_move (hs : Sound s) {m : Move} {slot : Nat × Listener}
    (h : slot ∈ (s.move m).stopSignal.slots) :
    slot ∈ s.stopSignal.slots ∨ slot.2 ≠ .engine := by
  have hm := moves s m
  generalize s.move m = t at hm h
  cases hm with
  | acts a => exact slots_act h
  | @does d rest hd =>
    cases d with
    | act a => exact slots_act (s := { s with doing := rest }) h
    | engineStop =>
      rw [perform, onStop_eq] at h
      exact .inl h
    | heard id => exact .inl h
  | advances hd hr ha =>
    cases ha with
    | shuts hg => rw [wireClosed_eq] at h; exact .inl h
    | fails hf link => rw [fail_eq] at h; exact .inl h
    | asks hp hw => rw [passOn_eq] at h; exact .inl h
    | isDenied hp hw => exact absurd hw (hs.wait?_ne_none hp)
    | concludes hp => rw [conclude_eq, settleProgress_eq] at h; exact .inl h
    | finishes hp => rw [finish_eq, unhookEngine_eq] at h; exact .inl (slots_elim h)
    | _ => exact .inl h
  | drops hr hp => rw [releaseOperations_eq] at h; exact .inl h
  | disowns hp => rw [unhookEngine_eq] at h; exact .inl (slots_elim h)
  | _ => exact .inl h

/-- The engine is registered under one number, if it is registered at all. -/
theorem engine_slot {o : Origin} {ms : List Move} {slot : Nat × Listener}
    (h : slot ∈ (o.session.after ms).stopSignal.slots) (he : slot.2 = .engine) : slot.1 = 0 := by
  induction ms using List.reverseRecOn with
  | nil =>
    rw [List.mem_singleton.mp h]
  | append_singleton ms m ih =>
    rw [after_concat] at h
    rcases slots_move (sound_after o ms) h with hold | hother
    · exact ih hold
    · exact absurd he hother

/-! ### A session that no stop reaches -/

/-- The engine was dropped before it was handed over, and before anybody called for a stop. -/
structure Orphaned (s : Session) : Prop where
  position : s.position = .neverRun
  verdict : s.progress.verdict = none
  unhooked : ∀ slot ∈ s.stopSignal.slots, slot.2 ≠ .engine
  unheard : .engineStop ∉ s.doing

namespace Orphaned

/-- A stop that is called for here finds only callbacks of tokens. -/
theorem unheard_fireStop (unhooked : ∀ slot ∈ s.stopSignal.slots, slot.2 ≠ .engine)
    (unheard : .engineStop ∉ s.doing) (perm : ∀ l, (s.order l).Perm l) :
    .engineStop ∉ s.fireStop.doing := by
  intro hmem
  rcases List.mem_append.mp hmem with hlisted | hleft
  · obtain ⟨l, hl, hd⟩ := List.mem_flatMap.mp hlisted
    obtain ⟨slot, hslot, rfl⟩ := List.mem_map.mp ((perm _).mem_iff.mp hl)
    have hne := unhooked slot hslot
    cases hlistener : slot.2 with
    | engine => exact hne hlistener
    | token id acts =>
      rw [hlistener] at hd
      rcases List.mem_cons.mp hd with heard | hact
      · cases heard
      · obtain ⟨a, -, ha⟩ := List.mem_map.mp hact
        cases ha
  · exact unheard hleft

theorem act (h : Orphaned s) (hs : Sound s) (perm : ∀ l, (s.order l).Perm l) (a : Act) :
    Orphaned (s.act a) := by
  have hr : s.running = false := by
    rw [← Bool.not_eq_true]
    intro hr
    have hcan := hs.runs hr
    rw [h.position] at hcan
    exact hcan
  have hslots : ∀ slot ∈ (s.act a).stopSignal.slots, slot.2 ≠ .engine := by
    intro slot hslot
    rcases slots_act hslot with hold | hother
    · exact h.unhooked slot hold
    · exact hother
  have hsame : (s.act a).position = s.position ∧
      (s.act a).progress.verdict = s.progress.verdict := by
    obtain ⟨message, -, ha⟩ | ⟨message, -, ha⟩ | ⟨-, ha⟩ := act_cases s a
    · rw [ha, send_eq]
      split <;> exact ⟨rfl, rfl⟩
    · rw [ha, tearDown_of_not_running hr]
      exact ⟨rfl, rfl⟩
    · obtain ⟨r, hprogress⟩ := ha.progress
      rw [ha.position, hprogress]
      exact ⟨rfl, rfl⟩
  refine ⟨hsame.1.trans h.position, hsame.2.trans h.verdict, hslots, ?_⟩
  cases hstop : a.stop? with
  | none =>
    intro hmem
    rcases (Chooses.of_act perm a).doing hmem with hbefore | ⟨hcall, -⟩
    · exact h.unheard hbefore
    · exact hcall hstop
  | some call =>
    cases a with
    | stop => exact unheard_fireStop h.unhooked h.unheard perm
    | stopWith r =>
      rw [Session.act, chooseReason_eq]
      exact unheard_fireStop (s := { s with progress := _ }) h.unhooked h.unheard perm
    | _ => cases hstop

theorem move (h : Orphaned s) (hs : Sound s) (perm : ∀ l, (s.order l).Perm l) (m : Move) :
    Orphaned (s.move m) := by
  have hidle : ¬ s.position.CanRun := by
    rw [h.position]
    exact id
  have hm := moves s m
  generalize s.move m = t at hm
  cases hm with
  | stays => exact h
  | acts a => exact h.act hs perm a
  | @does d rest hd =>
    have hrest : .engineStop ∉ rest := fun hmem => h.unheard (hd ▸ List.mem_cons_of_mem _ hmem)
    have hless : Orphaned { s with doing := rest } := ⟨h.position, h.verdict, h.unhooked, hrest⟩
    cases d with
    | act a => exact hless.act (hs.aside (aside_doing s rest)) perm a
    | engineStop => exact absurd (hd ▸ List.mem_cons_self) h.unheard
    | heard id => exact ⟨h.position, h.verdict, h.unhooked, hrest⟩
  | advances hd hr ha => exact absurd (hs.runs hr) hidle
  | hands hp hq => rw [h.position] at hp; cases hp
  | refuses hp ha => rw [h.position] at hp; cases hp
  | resumes hr hp hq => exact absurd hp hidle
  | misses hr hq hp => exact ⟨h.position, h.verdict, h.unhooked, h.unheard⟩
  | drops hr hp => exact absurd hp hidle
  | disowns hp => rw [h.position] at hp; cases hp
  | shuts => exact ⟨h.position, h.verdict, h.unhooked, h.unheard⟩

theorem after (h : Orphaned s) (hs : Sound s) (perm : ∀ l, (s.order l).Perm l) (ns : List Move) :
    Orphaned (s.after ns) := by
  refine after_induction (P := fun _ t => Orphaned t) h ?_ ns
  intro ns m ht
  refine ht.move (hs.after ns) ?_ m
  rw [order_after]
  exact perm

/-- The engine takes its registration along. -/
theorem of_dropEngine {o : Origin} {ms : List Move}
    (unstarted : (o.session.after ms).position = .engine) (unasked : o.session.stopCalls ms = []) :
    Orphaned (o.session.after (ms ++ [.dropEngine])) := by
  have hs := sound_after o ms
  have hhooked := hooked_of_unasked unasked
  have hhook : (o.session.after ms).engineHook = some 0 := by
    refine hhooked.hook.resolve_left fun hnone => ?_
    rcases hhooked.gone hnone with hp | hp <;> rw [unstarted] at hp <;> cases hp
  have hmove : o.session.after (ms ++ [.dropEngine]) = (o.session.after ms).dropEngine := by
    rw [after_concat, Session.move, if_pos unstarted]
  rw [hmove, dropEngine, unhookEngine_eq]
  refine ⟨rfl, ?_, ?_, engineStop_not_mem_of_unasked unasked⟩
  · by_contra hv
    have hfits := hs.fits
    rw [unstarted] at hfits
    cases hfits.symm.trans (closed_of_unasked unasked hv)
  · intro slot hslot he
    rw [hhook] at hslot
    have hmem : slot ∈ ((o.session.after ms).stopSignal.disconnect 0).slots := hslot
    rw [Broadcast.Signal.slots_disconnect, List.mem_filter] at hmem
    have hzero := engine_slot hmem.1 he
    rw [hzero] at hmem
    exact absurd hmem.2 (by decide)

end Orphaned

/-! ### Every run -/

/-- **From a verdict on nothing is accepted any more, and a stop that has returned has entered
one**, unless a panic took the deed of the engine away or the engine was never handed over.  The
outbox only empties then.  But if the engine was dropped before anybody called for a stop,
everything that is sent is buffered, however often the session is stopped. -/
theorem refuses_of_run (o : Origin) (ms : List Move) :
    (∀ message, (o.session.after ms).progress.verdict = none ∧
        ((o.session.after ms).send message).outbox.values
          = (o.session.after ms).outbox.values ++ [message] ∨
      (o.session.after ms).progress.verdict ≠ none ∧
        (o.session.after ms).send message = o.session.after ms) ∧
    ((o.session.after ms).progress.verdict ≠ none ∨
        o.session.stopCalls ms ≠ [] ∧ .engineStop ∉ (o.session.after ms).doing ∧
          o.session.stopPanics ms = [] ∧ (o.session.after ms).position ≠ .neverRun →
      ∀ ns message,
        (o.session.after (ms ++ ns)).send message = o.session.after (ms ++ ns) ∧
          (o.session.after (ms ++ ns)).outbox.values <:+ (o.session.after ms).outbox.values) ∧
    ((o.session.after ms).position = .engine → o.session.stopCalls ms = [] →
      ∀ ns message,
        ((o.session.after (ms ++ .dropEngine :: ns)).send message).outbox.values
          = (o.session.after (ms ++ .dropEngine :: ns)).outbox.values ++ [message]) := by
  have hs := sound_after o ms
  refine ⟨fun message => send_cases hs message, fun hended ns message => ?_,
    fun unstarted unasked ns message => ?_⟩
  · have hv : (o.session.after ms).progress.verdict ≠ none := by
      rcases hended with hv | ⟨hasked, hdone, hcalm, hrun⟩
      · exact hv
      · exact (hooked_of_heard hcalm).verdict_ne_none hs (isFired_of_asked hasked) hdone hrun
    obtain ⟨v, hsome⟩ := Option.ne_none_iff_exists'.mp hv
    rw [after_append]
    refine ⟨send_of_judged ?_ message, values_after_of_judged hs hv ns⟩
    rw [verdict_after hsome ns]
    exact Option.some_ne_none v
  · have perm : ∀ l, ((o.session.after (ms ++ [.dropEngine])).order l).Perm l := by
      rw [order_after]
      exact o.order_perm
    have horphan := (Orphaned.of_dropEngine unstarted unasked).after
      (sound_after o (ms ++ [.dropEngine])) perm ns
    have hsplit : ms ++ Move.dropEngine :: ns = ms ++ [.dropEngine] ++ ns := by simp
    rw [hsplit, after_append]
    obtain ⟨-, hvalues⟩ | ⟨hv, -⟩ :=
      send_cases ((sound_after o (ms ++ [.dropEngine])).after ns) message
    · exact hvalues
    · exact absurd horphan.verdict hv

/-- The engine is dropped, and then the session is stopped. -/
def stoppedTooLate : List Move :=
  [.dropEngine, .act .stop]

theorem accepted_of_stoppedTooLate :
    (({} : Origin).session.after stoppedTooLate).stopSignal.isFired = true ∧
      (({} : Origin).session.after stoppedTooLate).isQuiet = true ∧
      (({} : Origin).session.after stoppedTooLate).panicked = none ∧
      (({} : Origin).session.after stoppedTooLate).outbox.values = [] ∧
      ((({} : Origin).session.after stoppedTooLate).send "late").outbox.values = ["late"] := by
  decide

end Dialogue.Session
