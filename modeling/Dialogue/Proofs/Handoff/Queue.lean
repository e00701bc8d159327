/-
What each operation does to a queue.

A queue has four parts: the buffered values, the wait, whether a cancellation is armed, and the
number of the next wait.  A notification may only take the waker out of a wait, so a push and a stop
do to the other parts what they say, and nothing to the ticket of the wait.  A result is taken off
the queue in one place, `nextResult?`, and only for a wait that ends by it.
-/
import Dialogue.Handoff.Queue

namespace Dialogue.Handoff

namespace Queue

variable {α κ ω : Type}

/-- The wait with this number began, and it is no longer in progress. -/
structure IsOver (q : Queue α κ ω) (t : Nat) : Prop where
  began : t < q.nextTicket
  ended : q.waiting.ticket? ≠ some t

/-! ### Pushing and stopping -/

@[simp] theorem cancelled_push (q : Queue α κ ω) (a : α) :
    (q.push a).2.cancelled = q.cancelled := by
  simp [push]

@[simp] theorem ticket?_push (q : Queue α κ ω) (a : α) :
    (q.push a).2.waiting.ticket? = q.waiting.ticket? := by
  simp [push]

@[simp] theorem nextTicket_push (q : Queue α κ ω) (a : α) :
    (q.push a).2.nextTicket = q.nextTicket := by
  simp [push]

@[simp] theorem ticket?_stop (q : Queue α κ ω) :
    q.stop.2.waiting.ticket? = q.waiting.ticket? := by
  simp [stop]

@[simp] theorem nextTicket_stop (q : Queue α κ ω) : q.stop.2.nextTicket = q.nextTicket := by
  simp [stop]

/-! ### Waiting -/

theorem wait?_eq_none_iff {q : Queue α κ ω} {make : Nat → Waiting κ ω} :
    q.wait? make = none ↔ q.isWaiting = true := by
  unfold wait?
  split <;> simp_all

/-- A wait begins only if none is in progress; it gets the next number and takes nothing. -/
theorem of_wait? {q q' : Queue α κ ω} {make : Nat → Waiting κ ω} {t : Nat}
    {notice : Option (Notice ω)} (hmake : ∀ t, (make t).ticket? = some t)
    (h : q.wait? make = some (t, notice, q')) :
    q.waiting.ticket? = none ∧ t = q.nextTicket ∧ q'.waiting.ticket? = some t ∧
      q'.nextTicket = t + 1 ∧ q'.values = q.values ∧ q'.cancelled = q.cancelled := by
  unfold wait? at h
  split at h
  · cases h
  · next hw =>
    simp only [Option.some.injEq, Prod.mk.injEq] at h
    obtain ⟨rfl, hn⟩ := h
    have hq : q' = ({ q with waiting := make q.nextTicket, nextTicket := q.nextTicket + 1 } :
        Queue α κ ω).notify.2 := by rw [hn]
    subst hq
    refine ⟨?_, rfl, ?_, ?_, ?_, ?_⟩
    · simpa [isWaiting] using hw
    · rw [ticket?_notify]; exact hmake _
    · rw [nextTicket_notify]
    · rw [values_notify]
    · rw [cancelled_notify]

theorem idle_of_ticket? {w : Waiting κ ω} (h : w.ticket? = none) : w = .idle := by
  cases w with
  | idle => rfl
  | callback ticket handler => cases h
  | future ticket waker => cases h

/-! ### Withdrawing -/

@[simp] theorem values_withdraw (q : Queue α κ ω) (t : Nat) :
    (q.withdraw t).values = q.values := by
  unfold withdraw withdraw?
  split <;> rfl

@[simp] theorem cancelled_withdraw (q : Queue α κ ω) (t : Nat) :
    (q.withdraw t).cancelled = q.cancelled := by
  unfold withdraw withdraw?
  split <;> rfl

@[simp] theorem nextTicket_withdraw (q : Queue α κ ω) (t : Nat) :
    (q.withdraw t).nextTicket = q.nextTicket := by
  unfold withdraw withdraw?
  split <;> rfl

theorem ticket?_withdraw (q : Queue α κ ω) (t : Nat) :
    (q.withdraw t).waiting.ticket? =
      if q.waiting.ticket? = some t then none else q.waiting.ticket? := by
  unfold withdraw withdraw?
  split <;> rfl

/-! ### Taking a result -/

/-- The next result is an armed cancellation, or else the oldest value; only that goes. -/
theorem of_nextResult? {q q' : Queue α κ ω} {d : Delivery α}
    (h : q.nextResult? = some (d, q')) :
    (q.cancelled = true ∧ d = .cancelled ∧ q' = { q with cancelled := false }) ∨
      (q.cancelled = false ∧ ∃ a rest, q.values = a :: rest ∧ d = .value a ∧
        q' = { q with values := rest }) := by
  unfold nextResult? at h
  split at h
  · next hc =>
    cases h
    exact .inl ⟨hc, rfl, rfl⟩
  · next hc =>
    split at h
    · cases h
    · next a rest hv =>
      cases h
      exact .inr ⟨by simpa using hc, a, rest, hv, rfl, rfl⟩

/-- A callback is taken together with a result, and its wait ends. -/
theorem of_takeCallback? {q q' : Queue α κ ω} {handler : κ} {d : Delivery α}
    (h : q.takeCallback? = some (handler, d, q')) :
    ∃ t r, q.waiting = .callback t handler ∧ q.nextResult? = some (d, r) ∧
      q' = { r with waiting := .idle } := by
  unfold takeCallback? at h
  split at h
  · next t k hw =>
    split at h
    · next d' r hr =>
      cases h
      exact ⟨t, r, hw, hr, rfl⟩
    · cases h
  · cases h

/-- What a poll finds: its wait was taken away, or it ends by a result, or it goes on. -/
theorem poll_cases (q : Queue α κ ω) (t : Nat) (waker : ω) :
    (q.waiting.ticket? ≠ some t ∧ q.poll t waker = (.withdrawn, q)) ∨
      (q.waiting.ticket? = some t ∧ ∃ d r, q.nextResult? = some (d, r) ∧
        q.poll t waker = (.delivered d, { r with waiting := .idle })) ∨
      (q.waiting.ticket? = some t ∧ q.nextResult? = none ∧
        ∃ waiting, waiting.ticket? = some t ∧
          q.poll t waker = (.pending, { q with waiting := waiting })) := by
  unfold poll
  by_cases ht : q.waiting.ticket? = some t
  · rw [if_pos ht]
    refine .inr ?_
    cases hr : q.nextResult? with
    | some dr => exact .inl ⟨ht, dr.1, dr.2, rfl, rfl⟩
    | none =>
      refine .inr ⟨ht, rfl, ?_⟩
      cases hw : q.waiting with
      | idle => simp [hw, Waiting.ticket?] at ht
      | callback t' k => exact ⟨.callback t' k, by rw [← hw]; exact ht, by simp [← hw]⟩
      | future t' w => exact ⟨.future t (some waker), rfl, rfl⟩
  · rw [if_neg ht]
    exact .inl ⟨ht, rfl⟩

end Queue

end Dialogue.Handoff
