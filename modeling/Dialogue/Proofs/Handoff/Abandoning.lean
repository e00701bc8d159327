/-
Futures whose wait is taken away.

A ticket is a plain number, so a ticket that was given out on one queue names a wait on every other,
and that may be a future's.  The withdrawal takes the wait off the queue together with the waker
that is stored with it, and wakes nobody.  The future is ready from then on, but only a poll that
comes of its own accord finds that out: pushes and stops on the queue notify whoever waits next.

So whether the last pending poll is told at all was decided before.  It was told if something could
be delivered, since the push or the stop that made the queue ready woke the waker then.  If not, no
operation ever wakes it.
-/
import Dialogue.Proofs.Handoff.Waits
import Dialogue.Proofs.Handoff.Wakers

namespace Dialogue.Handoff

variable {α κ ω : Type}

/-- The wait that the call is about. -/
def Call.ticket : Call ω → Nat
  | asked t _ | woken t _ => t

/-- A wait that is over stays over, and no call is about it. -/
theorem Attends.isOver {old new : Queue α κ ω} {c : Option (Call ω)} (h : Attends old new c)
    {t : Nat} (hover : old.IsOver t) : new.IsOver t ∧ ∀ d ∈ c, d.ticket ≠ t := by
  have hbegan := hover.began
  cases h with
  | rests wait next _ _ =>
    refine ⟨⟨by omega, ?_⟩, nofun⟩
    rw [wait]
    exact hover.ended
  | ends wait next =>
    refine ⟨⟨by omega, ?_⟩, nofun⟩
    rw [wait]
    exact nofun
  | begins ticket _ next =>
    refine ⟨⟨by omega, ?_⟩, nofun⟩
    rw [ticket]
    intro heq
    cases heq
    omega
  | @asks u o w wait _ queue =>
    have hother : u ≠ t := by
      rintro rfl
      exact hover.ended (by rw [wait]; rfl)
    subst queue
    refine ⟨⟨hbegan, ?_⟩, ?_⟩
    · intro heq
      exact hother (Option.some.inj heq)
    · intro d hd
      cases hd
      exact hother
  | @wakes u w stored taken next _ =>
    have hother : u ≠ t := by
      rintro rfl
      exact hover.ended (by rw [stored]; rfl)
    refine ⟨⟨by omega, ?_⟩, ?_⟩
    · rw [taken]
      intro heq
      exact hother (Option.some.inj heq)
    · intro d hd
      cases hd
      exact hother

namespace Exchange

variable {x : Exchange α κ ω} {q t : Nat}

theorem isOver_after (hx : IsValid x) (hi : Issued x) (hover : (x.queue q).IsOver t)
    (ops : List (Op α κ ω)) :
    ((x.after ops).queue q).IsOver t ∧ ∀ c ∈ x.callsOn q ops, c.ticket ≠ t := by
  have hrun : IsValid (x.after ops) ∧ Issued (x.after ops) ∧
      ((x.after ops).queue q).IsOver t ∧ ∀ c ∈ x.callsOn q ops, c.ticket ≠ t := by
    refine foldl_induction step (s := x) (P := fun ops y => IsValid y ∧ Issued y ∧
      (y.queue q).IsOver t ∧ ∀ c ∈ x.callsOn q ops, c.ticket ≠ t) ?_ ?_ ops
    · exact ⟨hx, hi, hover, nofun⟩
    · intro ops op ⟨hv, hi, hover, hcalls⟩
      obtain ⟨hnext, hcall⟩ := ((alerts hv hi op).attends q).isOver hover
      refine ⟨hv.step op, hi.step hv op, hnext, ?_⟩
      intro c hc
      rw [callsOn_concat] at hc
      rcases List.mem_append.mp hc with hold | hlast
      · exact hcalls c hold
      · exact hcall c (Option.mem_toList.mp hlast)
  exact hrun.2.2

/-- What a withdrawal comes to that takes away the wait of a future, and what follows.  The calls
until then are `h`, and `rest` are the operations after it. -/
structure Abandons (x y : Exchange α κ ω) (q t : Nat) (id : Int) (h : List (Call ω))
    (rest : List (Op α κ ω)) : Prop where
  removed : y.queue q = { x.queue q with waiting := .idle }
  silent : y.woken = x.woken
  /-- Whoever polled last and found nothing was woken before, if there was something to deliver, and
  never otherwise. -/
  told : ∀ earlier w later, h = earlier ++ .asked t w :: later →
    (∀ c ∈ later, ¬ c.Asks t) →
    later = if (x.queue q).isReady = true then [.woken t w] else []
  /-- The waker is never woken for it again. -/
  never : ∀ c ∈ y.callsOn q rest, c.ticket ≠ t
  /-- The future is ready all the same: whenever it is polled next, it resolves and takes
  nothing. -/
  ready : ∀ waker, ((y.after rest).pollPop id q t waker).1 = .withdrawn

/--
**A future whose wait was withdrawn is not told.**

A handle withdraws, after any operations, the wait of a registered future by its ticket.  Nobody is
woken by that, nor later on for that wait, whatever is done.  Only what had been delivered to the
queue before it told the future.
-/
theorem abandoned_of_run (ops rest : List (Op α κ ω)) (n id : Int) (q t : Nat)
    (hvia : (after {} ops).handles.get? n = some q)
    (hpop : (after {} ops).pops.get? id = some ⟨q, some t⟩)
    (hticket : ((after {} ops).queue q).waiting.ticket? = some t) :
    ((after {} ops).withdraw q t).1 = true ∧
      Abandons (after {} ops) ((after {} ops).step (.withdraw n t)) q t id
        (callsOn {} q ops) rest := by
  obtain ⟨hx, hi, -, hattended⟩ := attended_after ops
  have hattended := hattended q
  have hmade := lt_length_of_ticket hticket
  have hwithdraw : (after {} ops).withdraw q t
      = (true, (after {} ops).setQueue q { (after {} ops).queue q with waiting := .idle }) := by
    rw [withdraw, Queue.withdraw?, if_pos hticket]
  have hstep : ((after {} ops).step (.withdraw n t)).queue q
      = { (after {} ops).queue q with waiting := .idle } := by
    simp only [step, via, hvia]
    rw [hwithdraw, queue_setQueue _ q q _ hmade, if_pos rfl]
  have hover : (((after {} ops).step (.withdraw n t)).queue q).IsOver t := by
    rw [hstep]
    refine ⟨hattended.ticket t hticket, ?_⟩
    intro hidle
    cases hidle
  obtain ⟨hlater, hnever⟩ :=
    isOver_after (hx.step (.withdraw n t)) (hi.step hx (.withdraw n t)) hover rest
  refine ⟨by rw [hwithdraw], hstep, woken_withdraw n t, ?_, hnever, ?_⟩
  · intro earlier w later hcalls hlast
    obtain ⟨o, hwait⟩ := Waiting.eq_future hticket fun k => hi.future id q t k hpop
    rw [hcalls] at hattended
    cases hattended.heeds hwait hlast with
    | stored unready _ nothing =>
      rw [unready]
      exact nothing
    | woken ready once =>
      rw [ready]
      exact once
  · intro waker
    rw [polled_pollPop, Queue.poll, if_neg hlater.ended]

/-- The ticket of a callback on one queue withdraws the wait of a future on another, after a push
there. -/
theorem abandoned_of_foreignTicket :
    let ops : List (Op Nat Unit Char) :=
      [.create 0, .create 1, .asyncPop 1 (), .pop 0 7, .poll 7 'a', .poll 7 'b', .push 0 3]
    ((after {} ops).withdraw 0 0).1 = true ∧
      Abandons (after {} ops) ((after {} ops).step (.withdraw 0 0)) 0 0 7
        [.asked 0 'a', .asked 0 'b', .woken 0 'b'] [.push 0 4, .pop 0 8, .poll 8 'c'] :=
  abandoned_of_run _ [.push 0 4, .pop 0 8, .poll 8 'c'] 0 7 0 0 rfl rfl rfl

/-- A future was polled and waits, and nothing was delivered to it.  The ticket of a callback on
another queue takes its wait away.  Its waker is not woken, and its next poll would have resolved
it. -/
theorem untold_of_foreignTicket :
    let ops : List (Op Nat Unit Char) := [.create 0, .pop 0 1, .poll 1 'w', .create 1]
    let x := (after {} ops).step (.asyncPop 1 ())
    ((after {} ops).asyncPop? 1 ()).map Prod.fst = some 0 ∧
      x.pops.get? 1 = some ⟨0, some 0⟩ ∧
      (x.queue 0).waiting = .future 0 (some 'w') ∧
      callsOn {} 0 (ops ++ [.asyncPop 1 ()]) = [.asked 0 'w'] ∧ (x.withdraw 0 0).1 = true ∧
      (x.withdraw 0 0).2.woken = [] ∧ ((x.withdraw 0 0).2.pollPop 1 0 0 'w').1 = .withdrawn :=
  ⟨rfl, rfl, rfl, rfl, rfl, rfl, rfl⟩

end Exchange

end Dialogue.Handoff
