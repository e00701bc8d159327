/-
Who has the last word on a stop.

The first call to stop fires the stop signal and names the reason, and the engine learns of it when
its turn among the listeners comes.  Callbacks that come before it run with the session as it was.
What they send is accepted, but too late: the future does not run as long as a callback is in
progress, so what had not been taken out of the outbox when the stop was called for never is.  What
they say about the reason counts: there is no verdict yet, and a further call with a reason replaces
the first.

So a session whose engine has yet to learn of a stop is shut for messages as one with a verdict is
(`IsShut`), and only for messages.
-/
import Dialogue.Proofs.Session.Choosing

namespace Dialogue.Session

variable {s : Session}

/-! ### No message gets through any more -/

/-- No message is taken out of the outbox any more: the engine is about to learn of a stop, or there
is a verdict, or nothing is written at all. -/
def IsShut (s : Session) : Prop :=
  .engineStop ∈ s.doing ∨ s.progress.verdict ≠ none ∨ s.position.mayWrite = false

/-- While a callback is in progress the future goes nowhere but to its end. -/
theorem position_of_busy (hd : s.doing ≠ []) {m : Move} :
    (s.move m).position = s.position ∨ (s.move m).position.mayWrite = false ∨
      (s.move m).position = .spawned := by
  have hdeed : ∀ (deeds : List Deed) (d : Deed),
      (perform { s with doing := deeds } d).position = s.position ∨
        (perform { s with doing := deeds } d).position.mayWrite = false ∨
        (perform { s with doing := deeds } d).position = .spawned := by
    intro deeds d
    obtain ⟨hsame, -⟩ | ⟨hover, -⟩ := position_perform { s with doing := deeds } d
    · exact .inl hsame
    · rw [hover]
      exact .inr (.inl rfl)
  have hm := moves s m
  generalize s.move m = t at hm
  cases hm with
  | acts a => exact hdeed s.doing (.act a)
  | @does d rest => exact hdeed rest d
  | advances hnone => exact absurd hnone hd
  | hands => exact .inr (.inr rfl)
  | refuses => exact .inr (.inl rfl)
  | drops => exact .inr (.inl rfl)
  | disowns => exact .inr (.inl rfl)
  | _ => exact .inl rfl

/-- What was handed over and what is in flight is no more than it was. -/
theorem IsShut.messages_move (h : IsShut s) (hs : Sound s) (m : Move) (F : List Frame) :
    messages (F ++ (s.frame? m).toList) ++ (s.move m).position.inFlight
      <+: messages F ++ s.position.inFlight := by
  have hbusy := fun hd => position_of_busy (s := s) hd (m := m)
  have hp := Passes.of_move hs m
  generalize s.move m = t at hp hbusy
  generalize s.acceptance? m = a at hp
  generalize s.frame? m = f at hp
  cases hp with
  | keeps position values written =>
    rw [Option.toList_none, List.append_nil]
    by_cases hw : t.position.mayWrite = true
    · rewrite [position.inFlight hw]
      exact List.prefix_rfl
    · rw [Position.inFlight_of_past (by simpa using hw), List.append_nil]
      exact List.prefix_append _ _
  | takes hpos position verdict values written =>
    -- a future that is shut takes no message out of the outbox
    rcases h with hlisted | hv | hpast
    · rcases hbusy (List.ne_nil_of_mem hlisted) with hsame | hpast | hspawned
      · rw [hpos, position] at hsame
        cases hsame
      · rw [position] at hpast
        cases hpast
      · rw [position] at hspawned
        cases hspawned
    · exact absurd verdict hv
    · rw [hpos] at hpast
      cases hpast
  | hands hpos inFlight values written =>
    rewrite [Option.toList_some, messages_message, inFlight, List.append_nil, hpos]
    exact List.prefix_rfl
  | announces hpos past written =>
    rw [Option.toList_some, messages_close, Position.inFlight_of_past past, List.append_nil]
    exact List.prefix_append _ _

/-- Whoever is registered is told, and who is not registered any more writes nothing. -/
theorem Hooked.isShut (h : Hooked s) (fired : s.stopSignal.isFired = true) : IsShut s := by
  by_cases hook : s.engineHook = none
  · refine .inr (.inr ?_)
    rcases h.gone hook with hp | hp <;> rw [hp] <;> rfl
  · rcases h.heard fired hook with hlisted | hv
    · exact .inl hlisted
    · exact .inr (.inl hv)

/-- From the first call on the session is shut, unless a panic takes the deed of the engine away. -/
theorem isShut_of_asked {o : Origin} {ms : List Move} (asked : o.session.stopCalls ms ≠ [])
    (calm : o.session.stopPanics ms = []) : IsShut (o.session.after ms) :=
  (hooked_of_heard calm).isShut (isFired_of_asked asked)

/-- **What is handed over in a whole run had been taken out of the outbox when the first stop was
called for.** -/
theorem messages_of_asked {o : Origin} {ms ns : List Move} (asked : o.session.stopCalls ms ≠ [])
    (calm : o.session.stopPanics (ms ++ ns) = []) :
    messages (o.session.handed (ms ++ ns)) ++ (o.session.after (ms ++ ns)).position.inFlight
      <+: messages (o.session.handed ms) ++ (o.session.after ms).position.inFlight := by
  induction ns using List.reverseRecOn with
  | nil =>
    rewrite [List.append_nil]
    exact List.prefix_rfl
  | append_singleton ns n ih =>
    rw [← List.append_assoc, stopPanics_append, List.append_eq_nil_iff] at calm
    have hshut := isShut_of_asked (asked_append asked ns) calm.1
    rw [← List.append_assoc, handed, seen_concat, after_concat]
    exact (hshut.messages_move (sound_after o _) n _).trans (ih calm.1)

/-! ### The reason may still change -/

/-- When the deed of the engine is done the reason stays. -/
theorem closeReason_of_engineStop {o : Origin} {ms : List Move}
    (next : (o.session.after ms).doing.head? = some .engineStop) (ns : List Move) :
    (o.session.after (ms ++ .tick :: ns)).progress.closeReason
      = (o.session.after ms).progress.closeReason := by
  obtain ⟨deeds, hd⟩ := List.head?_eq_some_iff.mp next
  have htick : (o.session.after (ms ++ [.tick])).progress
      = (perform { o.session.after ms with doing := deeds } .engineStop).progress := by
    rw [after_concat, tick_of_cons hd]
  rw [perform, progress_onStop] at htick
  have hv : (o.session.after (ms ++ [.tick])).progress.verdict ≠ none := by
    rw [htick]
    exact Option.some_ne_none _
  have hstays := closeReason_of_verdict hv ns
  rw [htick, List.append_assoc] at hstays
  exact hstays

/-- Who calls for a stop sends no message. -/
theorem acceptance?_of_stopCall {m : Move} {call : Option CloseReason}
    (h : s.stopCall? m = some call) : s.acceptance? m = none := by
  rw [acceptance?_eq]
  rw [stopCall?] at h
  cases ha : s.performed? m with
  | none => rfl
  | some a =>
    rw [ha] at h
    rw [Option.bind_some, accepts?]
    cases a with
    | stop | stopWith r => exact ite_self none
    | _ => cases h

/-- **The last call before the engine has learned of a stop decides the reason, and the first call
decides the messages.**

A call in a callback that comes before the engine replaces the reason of the call that is still in
progress, and the close frame says the last one.  Only if the engine's turn comes first, or once the
first call has returned, the reason stays.  But nothing that is sent from such a callback is ever
written: the frames are made of messages that had been accepted before the first call. -/
theorem lastWord_of_run (o : Origin) (ms ns : List Move) {m : Move} {call : Option CloseReason}
    (unasked : o.session.stopCalls ms = []) (first : (o.session.after ms).stopCall? m = some call) :
    (o.session.after (ms ++ [m])).progress.closeReason
        = (if (o.session.after ms).progress.verdict = none then call else none).getD
            o.settings.closeReason ∧
      (o.session.after (ms ++ m :: ns)).progress.closeReason
        = ((o.session.after (ms ++ [m])).choices ns).getLastD
            (o.session.after (ms ++ [m])).progress.closeReason ∧
      (∀ text, .close text ∈ o.session.handed (ms ++ m :: ns) →
        text = (o.session.after (ms ++ m :: ns)).progress.closeReason.announcement) ∧
      ((o.session.after (ms ++ [m])).doing.head? = some .engineStop →
        (o.session.after (ms ++ m :: .tick :: ns)).progress.closeReason
          = (o.session.after (ms ++ [m])).progress.closeReason) ∧
      (o.session.stopPanics (ms ++ m :: ns) = [] →
        (∃ (sent : List String) (closing : Option String),
          o.session.handed (ms ++ m :: ns) = sent.map .message ++ closing.toList.map .close ∧
            sent <+: o.session.accepted ms) ∧
        (.engineStop ∉ (o.session.after (ms ++ m :: ns)).doing →
          (o.session.after (ms ++ m :: ns)).position ≠ .neverRun →
            ∀ ks, (o.session.after (ms ++ m :: (ns ++ ks))).progress.closeReason
              = (o.session.after (ms ++ m :: ns)).progress.closeReason)) := by
  have hcons : ∀ ks, ms ++ m :: ks = ms ++ [m] ++ ks := fun ks => by simp
  have hasked : o.session.stopCalls (ms ++ [m]) ≠ [] := by
    rw [stopCalls_concat, first]
    exact List.append_ne_nil_of_right_ne_nil _ nofun
  refine ⟨?_, ?_, fun text h => ((traced_after o _).announced text h).2, fun next => ?_,
    fun calm => ⟨?_, fun done hrun ks => ?_⟩⟩
  · have hbefore := closeReason_after o [] ms
    rw [after_nil, choices_of_unasked unasked, List.nil_append] at hbefore
    rw [after_concat, (chooses_move o ms m).closeReason, first, hbefore]
    rfl
  · rw [hcons]
    exact closeReason_after o (ms ++ [m]) ns
  · rw [hcons]
    exact closeReason_of_engineStop next ns
  · obtain ⟨closing, hshape, -⟩ := (writes_after o (ms ++ m :: ns)).shape
    refine ⟨_, closing, hshape, ?_⟩
    have haccepts : o.session.accepted (ms ++ [m]) = o.session.accepted ms := by
      have hnone := acceptance?_of_stopCall first
      rw [accepted, seen_concat]
      show o.session.accepted ms ++ ((o.session.after ms).acceptance? m).toList = _
      rw [hnone, Option.toList_none, List.append_nil]
    rw [hcons] at calm ⊢
    have hpart := (messages_of_asked hasked calm).trans (writes_after o (ms ++ [m])).part
    rw [haccepts] at hpart
    exact (List.prefix_append _ _).trans hpart
  · rw [hcons] at calm done hrun
    have hfired := isFired_of_asked (asked_append hasked ns)
    have hv := (hooked_of_heard calm).verdict_ne_none (sound_after o _) hfired done hrun
    rw [hcons (ns ++ ks), hcons ns, ← List.append_assoc]
    exact closeReason_of_verdict hv ks

/-- A session with a callback on its stop token becomes active.  The callback stops the session in
its own words, and sends a message. -/
def overheard : List Move :=
  [.act (.listen 1 [.stopWith (.normal "mine"), .send "too"]), .spawn, .turn] ++ .replicate 7 .tick

/-- The callback runs, the engine learns of the stop, and the session ends. -/
def aftermath : List Move :=
  .replicate 3 .tick ++ [.turn] ++ .replicate 7 .tick

/-- What the callback chooses is the reason of the session, and the close frame says so. -/
theorem lastWord_of_talkative :
    (Origin.backwards.session.after (overheard ++ [.act (.stopWith (.goingAway "yours"))])).choices
        aftermath = [.normal "mine"] ∧
      (Origin.backwards.session.after
        (overheard ++ .act (.stopWith (.goingAway "yours")) :: aftermath)).progress.closeReason
          = .normal "mine" ∧
      ∀ text, .close text ∈ Origin.backwards.session.handed
        (overheard ++ .act (.stopWith (.goingAway "yours")) :: aftermath) →
          text = (CloseReason.normal "mine").announcement := by
  have hchoices : (Origin.backwards.session.after
      (overheard ++ [.act (.stopWith (.goingAway "yours"))])).choices aftermath
        = [.normal "mine"] := by decide +kernel
  obtain ⟨-, hreason, hframes, -⟩ := lastWord_of_run Origin.backwards overheard aftermath
    (m := .act (.stopWith (.goingAway "yours"))) (by decide +kernel) rfl
  rw [hreason, hchoices] at hframes
  rw [hchoices] at hreason
  exact ⟨hchoices, hreason, hframes⟩

/-- The first call says `yours`, the callback that it runs says `mine`, and the peer is told
`mine`. -/
theorem overruled_of_talkative :
    Origin.backwards.session.stopCalls
        (overheard ++ .act (.stopWith (.goingAway "yours")) :: aftermath)
          = [some (.goingAway "yours"), some (.normal "mine")] ∧
      Origin.backwards.session.stopPanics
        (overheard ++ .act (.stopWith (.goingAway "yours")) :: aftermath) = [] ∧
      Origin.backwards.session.accepted
        (overheard ++ .act (.stopWith (.goingAway "yours")) :: aftermath) = ["too"] ∧
      Origin.backwards.session.handed
        (overheard ++ .act (.stopWith (.goingAway "yours")) :: aftermath)
          = [.close "close 1000 mine"] := by
  decide +kernel

end Dialogue.Session
