/-
Every way a session can be used.

A script performs one step after another and lets each run to its end.  A session in use knows no
such order: a handle may be called while the future is in the middle of a poll, the connection
changes when it likes, and whoever owns the future polls it, woken or not, or drops it.  `Move`
lists everything that can happen next, the session's own `tick` among it, and a run is a list of
moves.  So "in every run" is "for every list of moves", and whatever holds after every list of moves
holds at every suspension point, inside every callback, and after every step of a script.

The converse is not so: no step of a poll comes in the middle of a call.  A call to stop runs
callbacks before it returns, and `tick` does what these have left to do before it takes the future
further.  All operations of a session are bound to one scheduler, which has nothing else run while a
call is in progress; a poll that is asked for then begins when the call has returned.
-/
import Dialogue.Proofs.History
import Dialogue.Session.Script

namespace Dialogue.Session

/-- What a session is made of.  The order in which its stop signal goes through the listeners is
any order. -/
structure Origin where
  settings : Settings := {}
  link : Link := {}
  opening : List Act := []
  handler : Handler := {}
  order : List Listener → List Listener := id
  order_perm : ∀ l, (order l).Perm l := by exact List.Perm.refl

/-- The session as it is made. -/
def Origin.session (o : Origin) : Session :=
  { create o.settings o.link o.opening o.handler with order := o.order }

/-- A session whose stop signal goes through its listeners backwards, so that the engine comes
last. -/
def Origin.backwards : Origin where
  order := List.reverse
  order_perm := List.reverse_perm

/-- What can happen next. -/
inductive Move
  /-- The session takes its next step. -/
  | tick
  /-- Someone performs an act, through a handle or on the connection. -/
  | act (a : Act)
  /-- The engine is handed over to someone who polls the future himself. -/
  | serve
  /-- The engine is handed over to the executor. -/
  | spawn
  /-- The executor polls the future because it was woken. -/
  | turn
  /-- The future is polled without having been woken. -/
  | poll
  /-- The future is dropped. -/
  | drop
  | dropEngine
  /-- The executor accepts no more tasks. -/
  | shutdown

/-- Makes a move.  The future is not polled or dropped while it is being polled, and an engine is
handed over once. -/
def move (s : Session) : Move → Session
  | .tick => s.tick
  | .act a => s.act a
  | .serve => if s.position = .engine then { s with position := .spawned } else s
  | .spawn => if s.position = .engine then s.spawn else s
  | .turn => if s.queued && !s.running then { s with queued := false }.resume else s
  | .poll => if s.running then s else s.resume
  | .drop => if s.running then s else s.dropFuture
  | .dropEngine => if s.position = .engine then s.dropEngine else s
  | .shutdown => { s with accepting := false }

/-- The session after moves. -/
def after (s : Session) (ms : List Move) : Session :=
  ms.foldl move s

@[simp] theorem after_nil (s : Session) : s.after [] = s := rfl

@[simp] theorem after_cons (s : Session) (m : Move) (ms : List Move) :
    s.after (m :: ms) = (s.move m).after ms := rfl

@[simp] theorem after_append (s : Session) (ms ns : List Move) :
    s.after (ms ++ ns) = (s.after ms).after ns := by
  simp [after]

theorem after_concat (s : Session) (ms : List Move) (m : Move) :
    s.after (ms ++ [m]) = (s.after ms).move m := by
  rw [after_append, after_cons, after_nil]

/-- What holds at first and survives every move holds after every run. -/
theorem after_induction {P : List Move → Session → Prop} {s : Session} (start : P [] s)
    (step : ∀ ms m, P ms (s.after ms) → P (ms ++ [m]) ((s.after ms).move m)) (ms : List Move) :
    P ms (s.after ms) :=
  foldl_induction move start step ms

/-! ### Scripts are runs -/

theorem settle_eq_after (s : Session) (n : Nat) :
    ∃ k, settle n s = s.after (.replicate k .tick) := by
  induction n generalizing s with
  | zero => exact ⟨0, rfl⟩
  | succ n ih =>
    unfold settle
    split
    · exact ⟨0, rfl⟩
    · obtain ⟨k, hk⟩ := ih s.tick
      exact ⟨k + 1, by simpa [List.replicate_succ, move] using hk⟩

theorem takeTurn_eq_after {s : Session} (hq : s.queued = true) (hr : s.running = false) (n : Nat) :
    ∃ ms, s.takeTurn n = s.after ms := by
  obtain ⟨k, hk⟩ := settle_eq_after ({ s with queued := false }.resume) n
  refine ⟨.turn :: .replicate k .tick, ?_⟩
  rw [takeTurn, hk, after_cons]
  simp [move, hq, hr]

/-- The polls of a session take no more steps than they may. -/
def KeepsWithin (s : Session) (bound : Nat) : Prop :=
  ∀ ms, (s.after ms).queued = true → (s.after ms).running = false →
    ((s.after ms).takeTurn bound).running = false

theorem KeepsWithin.after {s : Session} {bound : Nat} (h : s.KeepsWithin bound) (ms : List Move) :
    (s.after ms).KeepsWithin bound := by
  intro ns
  rw [← after_append]
  exact h (ms ++ ns)

theorem drain_eq_after {s : Session} {bound : Nat} (idle : s.running = false)
    (within : s.KeepsWithin bound) (n : Nat) : ∃ ms, drain bound n s = s.after ms := by
  induction n generalizing s with
  | zero => exact ⟨[], rfl⟩
  | succ n ih =>
    unfold drain
    split
    · next hq =>
      obtain ⟨ms, hturn⟩ := takeTurn_eq_after hq idle bound
      rw [hturn]
      obtain ⟨ns, hrest⟩ := ih (hturn ▸ within [] hq idle) (within.after ms)
      exact ⟨ms ++ ns, by rw [hrest, after_append]⟩
    · exact ⟨[], rfl⟩

theorem Stand.begin_eq_after {st : Stand} (idle : st.session.running = false) (step : Step) :
    ∃ ms, (st.begin step).2.session = st.session.after ms := by
  cases step with
  | act a => exact ⟨[.act a], rfl⟩
  | start reported =>
    cases hp : st.session.position with
    | engine => exact ⟨[.spawn], by simp [Stand.begin, move, hp]⟩
    | _ => exact ⟨[], by simp [Stand.begin, hp]⟩
  | poll => exact ⟨[], rfl⟩
  | drop => exact ⟨[.drop], by simp [Stand.begin, move, idle]⟩
  | dropEngine =>
    cases hp : st.session.position with
    | engine => exact ⟨[.dropEngine], by simp [Stand.begin, move, hp]⟩
    | _ => exact ⟨[], by simp [Stand.begin, hp]⟩
  | shutdown => exact ⟨[.shutdown], rfl⟩
  | unknown => exact ⟨[], rfl⟩

/-- **What a script does in one step, it does through moves**; then it forgets what was shown. -/
theorem Stand.step_eq_after {st : Stand} {bound : Nat} (idle : st.session.running = false)
    (within : st.session.KeepsWithin bound) (step : Step) :
    ∃ ms, (st.step bound step).2.session = (st.session.after ms).forget := by
  have settles : ∃ ms, ((st.begin step).2.session).settle bound = st.session.after ms := by
    obtain ⟨ms, hbegin⟩ := st.begin_eq_after idle step
    obtain ⟨k, hsettle⟩ := settle_eq_after (st.begin step).2.session bound
    exact ⟨ms ++ .replicate k .tick, by rw [hsettle, hbegin, after_append]⟩
  cases step with
  | poll =>
    obtain ⟨ms, hdrain⟩ := drain_eq_after idle within bound
    exact ⟨ms, congrArg forget hdrain⟩
  | _ =>
    obtain ⟨ms, hms⟩ := settles
    exact ⟨ms, congrArg forget hms⟩

end Dialogue.Session
