/-
What the answer of a watch says of the session.

A watcher asks two things at different times: the clock, when it looks how much is left, and the
session, when it pauses.  Only the second can tell it that the session is over, and it never pauses
after a look that finds the time spent.  So the answer that the session was over can be relied on:
it was, and the watcher did not stop it.  The answer that the time ran out says that nobody had told
the watcher otherwise in any pause; it does not say that the session was open.  A session that is
over when the watch begins is stopped all the same if the first look finds nothing left, as it
always does with a budget of zero, and so is one whose end and whose deadline fall into the same
pause if the watcher attends to the deadline first.  `Attentive` rules the latter out.

Both answers are final, and the history of stops follows from where the watcher stands, so what is
left to show is an induction along the run for the move in which the watcher left.
-/
import Dialogue.Proofs.Countdown.Schedule

namespace Dialogue.Countdown.Scenario

variable {bound : Nat} {plan : Plan} {s : Scenario} {ms : List Move} {elapsed finish : Nat}

/-- A watcher that has left looks no more. -/
theorem looks?_of_leaving {timedOut : Bool} (h : s.watcher = .leaving timedOut elapsed finish)
    (m : Move) : s.looks? m = none := by
  cases hl : s.looks? m with
  | none => rfl
  | some since =>
    obtain ⟨-, ⟨start, hw⟩, -⟩ | ⟨-, ⟨expires, wake, hw, -⟩, -⟩ := looks?_cases hl
    · rw [h] at hw
      cases hw
    · rw [h] at hw
      cases hw

theorem watcher_after_of_leaving {timedOut : Bool}
    (h : s.watcher = .leaving timedOut elapsed finish) (ms : List Move) :
    (s.after bound plan ms).watcher = .leaving timedOut elapsed finish :=
  foldl_induction (P := fun _ t => t.watcher = .leaving timedOut elapsed finish) (move bound plan) h
    (fun _ m ht => watcher_move_of_leaving ht m) ms

/-! ### The session was over -/

/-- A watcher that was told that the session is over was told the truth. -/
theorem isOver_of_told {start : Nat} (fresh : s.watcher = .waiting start)
    (h : (s.after bound plan ms).watcher = .leaving false elapsed finish) :
    (s.after bound plan ms).isOver = true := by
  induction ms using List.reverseRecOn with
  | nil =>
    rw [after_nil, fresh] at h
    cases h
  | append_singleton ms m ih =>
    rw [after_concat] at h ⊢
    have hb := befalls bound plan (s.after bound plan ms) m
    generalize (s.after bound plan ms).move bound plan m = t at hb h
    cases hb with
    | stays quiet now watcher calls isOver => exact isOver (ih (watcher ▸ h))
    | looks hl =>
      rw [look_eq] at h
      have hnext : plan.deadline.next _ _ = .leaving false elapsed finish := h
      rw [Deadline.next] at hnext
      split at hnext <;> cases hnext
    | leaves watching hover => exact hover

/-! ### The time ran out -/

/-- The watcher of a run stopped the session in a move, and what it knew then. -/
structure StopsAt (bound : Nat) (plan : Plan) (s : Scenario) (ms before : List Move) (m : Move)
    (since : Nat) : Prop where
  isPrefix : before ++ [m] <+: ms
  looks : (s.after bound plan before).looks? m = some since
  spent : plan.deadline.expires since ≤ (s.after bound plan before).now
  /-- There was no other stop. -/
  once : s.stops bound plan ms = [((s.after bound plan before).now, .timedOut)]
  /-- Whenever the watcher asked in a pause, the session was open. -/
  heeded : ∀ pre post since expires wake, before = pre ++ .heed :: post →
    (s.after bound plan pre).watcher = .watching since expires wake →
    (s.after bound plan pre).isOver = false

/-- A watcher that still looks was not told in any pause before. -/
theorem heeded_of_looks {before : List Move} {m : Move} {since : Nat}
    (looks : (s.after bound plan before).looks? m = some since) :
    ∀ pre post since expires wake, before = pre ++ .heed :: post →
      (s.after bound plan pre).watcher = .watching since expires wake →
      (s.after bound plan pre).isOver = false := by
  rintro pre post since' expires wake rfl watching
  rw [← Bool.not_eq_true]
  intro hover
  have hleft : ((s.after bound plan pre).move bound plan .heed).watcher
      = .leaving false ((s.after bound plan pre).now - since')
          ((s.after bound plan pre).now + 1) := by
    obtain ⟨_, _, _, hw, -, heq⟩ | ⟨-, hopen⟩ := heed_cases (s.after bound plan pre)
    · rw [watching] at hw
      cases hw
      rw [move, heq]
    · rw [hopen _ _ _ watching] at hover
      cases hover
  rw [after_append, after_cons,
    looks?_of_leaving (watcher_after_of_leaving hleft post) m] at looks
  cases looks

/-- A watcher that answers that the time ran out stopped the session in some move. -/
theorem exists_stopsAt {start : Nat} (fresh : s.watcher = .waiting start)
    (h : (s.after bound plan ms).watcher = .leaving true elapsed finish) :
    ∃ before m since, StopsAt bound plan s ms before m since := by
  induction ms using List.reverseRecOn with
  | nil =>
    rw [after_nil, fresh] at h
    cases h
  | append_singleton ms m ih =>
    have hstands := stands_after bound plan fresh (ms ++ [m])
    rw [h, looks_concat] at hstands
    rw [after_concat] at h
    have hb := befalls bound plan (s.after bound plan ms) m
    generalize (s.after bound plan ms).move bound plan m = t at hb h
    cases hb with
    | stays quiet now watcher =>
      obtain ⟨before, m', since, hat⟩ := ih (watcher ▸ h)
      refine ⟨before, m', since, hat.isPrefix.trans (List.prefix_append ms [m]), hat.looks,
        hat.spent, ?_, hat.heeded⟩
      have hnone : (s.after bound plan ms).look? plan m = none := by rw [look?, quiet]; rfl
      rw [stops_eq, looks_concat, hnone, Option.toList_none, List.append_nil, ← stops_eq]
      exact hat.once
    | @looks _ since hl =>
      rw [look?, hl] at hstands
      generalize s.began bound plan (ms ++ [m]) = began at hstands
      cases began with
      | none => cases hstands
      | some t =>
        obtain ⟨-, -, hnot⟩ | ⟨l, hleft, hlooks, hspent, -⟩ := hstands.pausing_cases
        · exact absurd rfl (hnot _ _)
        · have hlast := List.singleton_injective (List.append_inj_right' hlooks (by simp))
          rw [← hlast] at hleft hspent
          refine ⟨ms, m, since, List.prefix_rfl, hl, Nat.sub_eq_zero_iff_le.mp hleft, ?_,
            heeded_of_looks hl⟩
          rw [stops_eq, looks_concat, look?, hl]
          exact congrArg (List.map fun l => (l.time, CloseReason.timedOut)) hspent
    | leaves watching hover => cases h

/-- The watcher of a run learns of the end before it goes on: no pause ends in a session that is
over. -/
def Attentive (bound : Nat) (plan : Plan) (s : Scenario) (ms : List Move) : Prop :=
  ∀ pre post since, ms = pre ++ .timer :: post →
    (s.after bound plan pre).wakes? .timer = some since → (s.after bound plan pre).isOver = false

/-- An attentive watcher stops a session that is over with its first look or not at all. -/
theorem StopsAt.begin {before : List Move} {m : Move} {since : Nat}
    (h : StopsAt bound plan s ms before m since) (attentive : s.Attentive bound plan ms)
    (hover : (s.after bound plan before).isOver = true) : m = .begin since := by
  obtain ⟨rest, hms⟩ := h.isPrefix
  obtain ⟨hm, -⟩ | ⟨rfl, -, hbegins⟩ := looks?_cases h.looks
  · exact hm
  · have hwakes : (s.after bound plan before).wakes? .timer = some since := by
      have hlooks := h.looks
      rwa [looks?, hbegins, Option.none_or] at hlooks
    have hopen := attentive before rest since (by rw [← hms]; simp) hwakes
    rw [hover] at hopen
    cases hopen

/-- **What an answer says.**  The answer that the session was over is true, and then the watcher
never stopped it.  The answer that the time ran out is given by a watcher that stopped the session
once, when the time was spent, and was not told of its end in any pause; if it is attentive, the
session was open then, or the time was spent at the first look.  With a budget of zero it always is,
whether the session is over or not. -/
theorem answers_of_run (bound : Nat) (plan : Plan) (session : Session) (now start : Nat) :
    let s := ahead session now start
    (∀ ms elapsed finish, (s.after bound plan ms).watcher = .leaving false elapsed finish →
      (s.after bound plan ms).isOver = true ∧ s.stops bound plan ms = []) ∧
    (∀ ms elapsed finish, (s.after bound plan ms).watcher = .leaving true elapsed finish →
      ∃ before m since, StopsAt bound plan s ms before m since ∧
        (s.Attentive bound plan ms → (s.after bound plan before).isOver = true →
          m = .begin since)) ∧
    (plan.deadline.budget = 0 → ∀ ms elapsed finish,
      (s.after bound plan ms).watcher ≠ .leaving false elapsed finish) := by
  intro s
  have hfresh : s.watcher = .waiting start := rfl
  refine ⟨fun ms elapsed finish h => ⟨isOver_of_told hfresh h, ?_⟩,
    fun ms elapsed finish h => ?_, fun hb ms elapsed finish h => ?_⟩
  · have hstands := stands_after bound plan hfresh ms
    rw [h] at hstands
    rw [stops_eq]
    generalize s.began bound plan ms = began at hstands
    cases began with
    | none => cases hstands
    | some since =>
      obtain ⟨-, hspent, -⟩ | ⟨l, -, -, -, finish', hw⟩ := hstands.pausing_cases
      · rw [hspent]
        rfl
      · cases hw
  · obtain ⟨before, m, since, hat⟩ := exists_stopsAt hfresh h
    exact ⟨before, m, since, hat, fun attentive hover => hat.begin attentive hover⟩
  · have hstands := stands_after bound plan hfresh ms
    rw [h] at hstands
    generalize s.began bound plan ms = began at hstands
    generalize s.looks bound plan ms = looks at hstands
    cases hstands with
    | @told since _ _ looks l paced left =>
      obtain ⟨hsince, hexact⟩ := paced.exact l (by simp)
      have hle := plan.deadline.left_le hsince
      omega

/-- A watch that begins when its session has been over for long, with nothing to wait for. -/
def lateWatch : Plan where
  deadline := { budget := 0 }
  startAfter := 100
  timeline := [(37, [.link .peerEnd])]

theorem spent_of_lateWatch :
    lateWatch.outcome.timedOut = true ∧
      (37, .closed .peerClosed) ∈ lateWatch.outcome.journal := by
  decide +kernel

end Dialogue.Countdown.Scenario
