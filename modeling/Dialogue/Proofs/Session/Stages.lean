/-
Where a session stands, and that it never goes back.

The stage is written by six hands: the handshake begins, the session becomes active, the engine
learns of a stop, a failure is observed, the session concludes, and a panic tears it down.
`Stage.Next` lists the changes that these can make.  The last three write `closed` whatever they
find, and nothing comes after that.  The first three look before they write: the engine at the stage
itself, the other two only at the verdict, and it is the position of the future that says which
stage they replace.

What a stage says about the rest of the session is part of `Sound`, and is read off it here.
-/
import Dialogue.Proofs.Session.Sound

namespace Dialogue.Session

/-! ### The order of the stages -/

/-- The changes of the stage. -/
inductive Stage.Next : Stage → Stage → Prop
  | begins : Next notStarted handshaking
  | opens : Next handshaking active
  | stops : Next active closing
  | ends {stage} (h : stage ≠ closed) : Next stage closed

/-- How far along a stage is. -/
def Stage.rank : Stage → Nat
  | notStarted => 0
  | handshaking => 1
  | active => 2
  | closing => 3
  | closed => 4

theorem Stage.Next.rank_lt {a b : Stage} (h : a.Next b) : a.rank < b.rank := by
  cases h with
  | begins => decide
  | opens => decide
  | stops => decide
  | ends h =>
    cases a with
    | closed => exact absurd rfl h
    | _ => decide

/-- Nothing comes after the end. -/
theorem Stage.rank_le (stage : Stage) : stage.rank ≤ Stage.closed.rank := by
  cases stage <;> decide

/-! ### How the stage changes -/

variable {s t : Session}

theorem stage_act (s : Session) (a : Act) :
    (s.act a).stage = s.stage ∨ (s.act a).stage = .closed := by
  obtain ⟨message, -, ha⟩ | ⟨message, -, ha⟩ | ⟨-, ha⟩ := act_cases s a
  · refine .inl ?_
    rw [ha, send_eq]
    split <;> rfl
  · rw [ha]
    cases hr : s.running with
    | false =>
      rw [tearDown_of_not_running hr]
      exact .inl rfl
    | true =>
      obtain ⟨hprogress, -⟩ | ⟨hprogress, -⟩ :=
        (tearDown_of_running hr (.raised message)).progress
      · exact .inl (by rw [stage, hprogress]; rfl)
      · exact .inr (by rw [stage, hprogress, settleProgress_eq])
  · obtain ⟨r, hprogress⟩ := ha.progress
    exact .inl (by rw [stage, hprogress]; rfl)

/-- The future begins the handshake before any other stage, and opens the session after it. -/
theorem stage_advances (hs : Sound s) (ha : Advances s t) :
    t.stage = s.stage ∨ t.stage = .closed ∨ s.stage = .notStarted ∧ t.stage = .handshaking ∨
      s.stage = .handshaking ∧ t.stage = .active := by
  have hf := hs.fits
  cases ha with
  | shuts hg => rw [wireClosed_eq]; exact .inl rfl
  | prepares hp hv =>
    rw [hp] at hf
    exact .inr (.inr (.inl ⟨hf, rfl⟩))
  | connects hp hv =>
    rw [hp] at hf
    exact .inr (.inr (.inr ⟨hf.1, rfl⟩))
  | fails hf link => rw [fail_eq]; exact .inr (.inl rfl)
  | asks hp hw => rw [passOn_eq]; exact .inl rfl
  | isDenied hp hw => exact absurd hw (hs.wait?_ne_none hp)
  | concludes hp => rw [conclude_eq, settleProgress_eq]; exact .inr (.inl rfl)
  | finishes hp => rw [finish_eq, unhookEngine_eq]; exact .inl rfl
  | _ => exact .inl rfl

/-- A session closes when the engine learns of a stop, and it opens when nothing else is to be
done. -/
theorem stage_move (hs : Sound s) (m : Move) :
    (s.move m).stage = s.stage ∨ (s.move m).stage = .closed ∨
      (m = .tick ∧ s.doing = [] ∧ (s.stage = .notStarted ∧ (s.move m).stage = .handshaking ∨
        s.stage = .handshaking ∧ (s.move m).stage = .active)) ∨
      ∃ rest, m = .tick ∧ s.doing = .engineStop :: rest ∧ s.stage = .active ∧
        (s.move m).stage = .closing := by
  have hm := moves s m
  generalize s.move m = t at hm ⊢
  have acted : ∀ {u : Session} (a : Act), u.stage = s.stage →
      (u.act a).stage = s.stage ∨ (u.act a).stage = .closed := by
    intro u a hu
    rw [← hu]
    exact stage_act u a
  cases hm with
  | acts a =>
    rcases acted a rfl with hsame | hclosed
    · exact .inl hsame
    · exact .inr (.inl hclosed)
  | @does d rest hd =>
    cases d with
    | act a =>
      rcases acted (u := { s with doing := rest }) a rfl with hsame | hclosed
      · exact .inl hsame
      · exact .inr (.inl hclosed)
    | heard id => exact .inl rfl
    | engineStop =>
      have hstage : (Session.onStop { s with doing := rest }).stage = s.stage.stopped := by
        rw [stage, progress_onStop]
        rfl
      by_cases hactive : s.stage = .active
      · refine .inr (.inr (.inr ⟨rest, rfl, hd, hactive, ?_⟩))
        rw [perform, hstage, hactive]
        rfl
      · refine .inl ?_
        rw [perform, hstage]
        unfold Stage.stopped
        split
        · next he => exact absurd he hactive
        · rfl
  | advances hd hr ha =>
    rcases stage_advances hs ha with hsame | hclosed | hopens
    · exact .inl hsame
    · exact .inr (.inl hclosed)
    · exact .inr (.inr (.inl ⟨rfl, hd, hopens⟩))
  | drops hr hp => rw [releaseOperations_eq]; exact .inl rfl
  | disowns hp => rw [unhookEngine_eq]; exact .inl rfl
  | _ => exact .inl rfl

theorem next_move (hs : Sound s) (m : Move) :
    (s.move m).stage = s.stage ∨ s.stage.Next (s.move m).stage := by
  obtain hsame | hclosed | ⟨-, -, ⟨ha, hb⟩ | ⟨ha, hb⟩⟩ | ⟨-, -, -, ha, hb⟩ :=
    stage_move hs m
  · exact .inl hsame
  · by_cases he : s.stage = .closed
    · exact .inl (hclosed.trans he.symm)
    · rw [hclosed]
      exact .inr (.ends he)
  · rw [ha, hb]
    exact .inr .begins
  · rw [ha, hb]
    exact .inr .opens
  · rw [ha, hb]
    exact .inr .stops

/-! ### What a stage says -/

/-- What the stage of a session says about the rest of it. -/
structure Tells (s : Session) : Prop where
  /-- Nothing has ended an active session, its reading can be cut short, and its outbox is not told
  to stop. -/
  active : s.stage = .active →
    s.progress.verdict = none ∧ s.progress.receive.isReady = true ∧ s.outbox.cancelled = false
  /-- A closing session was asked to stop. -/
  closing : s.stage = .closing → s.progress.verdict = some .cancelled
  /-- Something has ended a closed session. -/
  closed : s.stage = .closed → s.progress.verdict ≠ none
  /-- The transmit region learns from its outbox that it shall end only after the session has left
  the active stage. -/
  parting : ∀ turn rx ticket, s.position = .active turn rx (.waiting ticket) →
    (s.outbox.poll ticket ()).1 = .delivered .cancelled ∨
      (s.outbox.poll ticket ()).1 = .withdrawn → s.stage = .closing ∨ s.stage = .closed

theorem Sound.tells (h : Sound s) : Tells s := by
  have hc := h.coherent
  unfold Progress.Coherent at hc
  refine ⟨?_, ?_, ?_, ?_⟩
  · intro hs
    have harmed : s.outbox.cancelled = false := by
      by_contra hne
      obtain hs' | hs' := h.armed (by simpa using hne)
      · rw [hs] at hs'
        cases hs'
      · rw [hs] at hs'
        cases hs'
    simp only [stage] at hs
    rw [hs] at hc
    exact ⟨hc.1, hc.2.2, harmed⟩
  · intro hs
    simp only [stage] at hs
    rw [hs] at hc
    exact hc.1
  · intro hs
    exact h.coherent.ne_none_of_ending (.inr hs)
  · intro turn rx ticket hp hd
    exact (h.ending_of_parts hp rfl hd).1

/-! ### Every run -/

theorem rank_after (o : Origin) (ms ns : List Move) :
    (o.session.after (ms ++ ns)).stage = (o.session.after ms).stage ∨
      (o.session.after ms).stage.rank < (o.session.after (ms ++ ns)).stage.rank := by
  induction ns using List.reverseRecOn with
  | nil => exact .inl (by rw [List.append_nil])
  | append_singleton ns m ih =>
    rw [← List.append_assoc, after_concat]
    obtain hsame | hnext := next_move (sound_after o (ms ++ ns)) m
    · rw [hsame]
      exact ih
    · have hlt := hnext.rank_lt
      obtain hback | hback := ih
      · rw [hback] at hlt
        exact .inr hlt
      · exact .inr (Nat.lt_trans hback hlt)

/-- A session that is closed stays so. -/
theorem closed_append {o : Origin} {ms : List Move} (h : (o.session.after ms).stage = .closed)
    (ns : List Move) : (o.session.after (ms ++ ns)).stage = .closed := by
  obtain hsame | hlt := rank_after o ms ns
  · exact hsame.trans h
  · rw [h] at hlt
    exact absurd hlt (Nat.not_lt.mpr (Stage.rank_le _))

/--
**A session goes through its stages in one direction.**

At every moment of every run, panics and drops included, a move leaves the stage or makes one of the
changes that `Stage.Next` lists; so a session that has left a stage is further along for good, and
one that is closed stays so.  `Tells` is what each stage says about the rest of the session.
-/
theorem stages_of_run (o : Origin) (ms : List Move) :
    Tells (o.session.after ms) ∧
    (∀ m, ((o.session.after ms).move m).stage = (o.session.after ms).stage ∨
      (o.session.after ms).stage.Next ((o.session.after ms).move m).stage) ∧
    (∀ ns, (o.session.after (ms ++ ns)).stage = (o.session.after ms).stage ∨
      (o.session.after ms).stage.rank < (o.session.after (ms ++ ns)).stage.rank) ∧
    ((o.session.after ms).stage = .closed →
      ∀ ns, (o.session.after (ms ++ ns)).stage = .closed) := by
  have hs := sound_after o ms
  exact ⟨hs.tells, next_move hs, rank_after o ms, closed_append⟩

end Dialogue.Session
