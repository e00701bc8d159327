/-
No registered future misses its wake-up.

Two facts about a waiting future carry everything: as long as a waker is stored, it is that of the
last pending poll and there is nothing to deliver; and once it was taken, the queue is ready until
the future is polled again.  A push or stop that finds something to deliver takes the waker, so
neither can fail.
-/
import Dialogue.Proofs.Handoff.Alerts

namespace Dialogue.Handoff

variable {α κ ω : Type}

/-! ### What a history of calls says about a queue -/

/-- Every waking answers the poll right before it. -/
def Paired (h : List (Call ω)) : Prop :=
  ∀ before t w after, h = before ++ .woken t w :: after → before.getLast? = some (.asked t w)

theorem Paired.concat {h : List (Call ω)} (hh : Paired h) {c : Call ω}
    (hc : ∀ t w, c = .woken t w → h.getLast? = some (.asked t w)) : Paired (h ++ [c]) := by
  intro before t w after heq
  rcases concat_eq_append_cons heq with ⟨rfl, hlast, -⟩ | ⟨rest, hinit, -⟩
  · exact hc t w hlast
  · exact hh before t w rest hinit

/-- How the wait on a queue stands after its calls. -/
structure Attended (q : Queue α κ ω) (h : List (Call ω)) : Prop where
  paired : Paired h
  past : ∀ t w, .asked t w ∈ h → t < q.nextTicket
  ticket : ∀ t, q.waiting.ticket? = some t → t < q.nextTicket
  /-- A waker stays from its poll on, as long as there is nothing to deliver. -/
  stored : ∀ t w, q.waiting = .future t (some w) → h.getLast? = some (.asked t w) ∧
    q.isReady = false
  /-- Without one, the future was never polled, or there is something to deliver. -/
  taken : ∀ t, q.waiting = .future t none → (∀ w, .asked t w ∉ h) ∨
    ∃ before w, h = before ++ [.asked t w, .woken t w] ∧ q.isReady = true

namespace Attended

variable {old new : Queue α κ ω} {h : List (Call ω)}

theorem start : Attended (.fresh : Queue α κ ω) [] := by
  refine ⟨?_, nofun, nofun, nofun, nofun⟩
  intro before t w after hh
  simp at hh

theorem rests (ha : Attended old h) (wait : new.waiting = old.waiting)
    (next : new.nextTicket = old.nextTicket) (ready : old.isReady = true → new.isReady = true)
    (stored : ∀ c, old.waiting.waker? = some c → new.isReady = old.isReady) :
    Attended new h := by
  refine ⟨ha.paired, ?_, ?_, ?_, ?_⟩
  · rw [next]
    exact ha.past
  · rw [wait, next]
    exact ha.ticket
  · intro t w hw
    rw [wait] at hw
    rw [stored (t, w) (Waiting.waker?_eq_some.mpr hw)]
    exact ha.stored t w hw
  · intro t hw
    rw [wait] at hw
    rcases ha.taken t hw with hnever | ⟨before, w, hh, hready⟩
    · exact .inl hnever
    · exact .inr ⟨before, w, hh, ready hready⟩

theorem ends (ha : Attended old h) (wait : new.waiting = .idle)
    (next : new.nextTicket = old.nextTicket) : Attended new h := by
  refine ⟨ha.paired, ?_, ?_, ?_, ?_⟩
  · rw [next]
    exact ha.past
  · rw [wait]
    exact nofun
  · rw [wait]
    exact nofun
  · rw [wait]
    exact nofun

/-- Nobody polled yet under a new ticket. -/
theorem begins (ha : Attended old h) (ticket : new.waiting.ticket? = some old.nextTicket)
    (waker : new.waiting.waker? = none) (next : new.nextTicket = old.nextTicket + 1) :
    Attended new h := by
  refine ⟨ha.paired, ?_, ?_, ?_, ?_⟩
  · intro t w hmem
    have hlt := ha.past t w hmem
    omega
  · intro t ht
    rw [ticket] at ht
    cases ht
    omega
  · intro t w hw
    rw [Waiting.waker?_eq_some.mpr hw] at waker
    cases waker
  · intro t hw
    rw [hw] at ticket
    cases ticket
    refine .inl ?_
    intro w hmem
    exact absurd (ha.past _ w hmem) (Nat.lt_irrefl _)

theorem asks (ha : Attended old h) {t : Nat} {o : Option ω} {w : ω}
    (wait : old.waiting = .future t o) (unready : old.isReady = false) :
    Attended ({ old with waiting := .future t (some w) } : Queue α κ ω) (h ++ [.asked t w]) := by
  have hlt : t < old.nextTicket := ha.ticket t (by rw [wait]; rfl)
  refine ⟨ha.paired.concat (fun _ _ heq => nomatch heq), ?_, ?_, ?_, ?_⟩
  · intro u v hmem
    rcases List.mem_append.mp hmem with hold | hlast
    · exact ha.past u v hold
    · cases List.mem_singleton.mp hlast
      exact hlt
  · intro u hu
    cases hu
    exact hlt
  · intro u v hw
    cases hw
    exact ⟨by simp, unready⟩
  · intro u hw
    cases hw

/-- The waker that is woken is that of the last poll. -/
theorem wakes (ha : Attended old h) {t : Nat} {w : ω} (stored : old.waiting = .future t (some w))
    (taken : new.waiting = .future t none) (next : new.nextTicket = old.nextTicket)
    (ready : new.isReady = true) : Attended new (h ++ [.woken t w]) := by
  obtain ⟨hlast, -⟩ := ha.stored t w stored
  obtain ⟨before, rfl⟩ := List.getLast?_eq_some_iff.mp hlast
  refine ⟨ha.paired.concat ?_, ?_, ?_, ?_, ?_⟩
  · intro u v heq
    cases heq
    exact hlast
  · intro u v hmem
    rw [next]
    rcases List.mem_append.mp hmem with hold | hnew
    · exact ha.past u v hold
    · cases List.mem_singleton.mp hnew
  · intro u hu
    rw [taken] at hu
    cases hu
    rw [next]
    exact ha.ticket t (by rw [stored]; rfl)
  · intro u v hw
    rw [taken] at hw
    cases hw
  · intro u hw
    rw [taken] at hw
    cases hw
    exact .inr ⟨before, w, by simp, ready⟩

theorem step {c : Option (Call ω)} (ha : Attended old h) (hc : Attends old new c) :
    Attended new (h ++ c.toList) := by
  cases hc with
  | rests wait next ready stored =>
    rw [Option.toList_none, List.append_nil]
    exact ha.rests wait next ready stored
  | ends wait next =>
    rw [Option.toList_none, List.append_nil]
    exact ha.ends wait next
  | begins ticket waker next =>
    rw [Option.toList_none, List.append_nil]
    exact ha.begins ticket waker next
  | asks wait unready queue =>
    subst queue
    exact ha.asks wait unready
  | wakes stored taken next ready => exact ha.wakes stored taken next ready

end Attended

/-- Wakings answer pending polls. -/
structure Answers (h : List (Call ω)) : Prop where
  /-- A waking answers the poll right before it, so a waker that was replaced is never woken. -/
  paired : Paired h
  /-- It is the only one for that poll. -/
  once : ∀ before t v between w after, h
    = before ++ .woken t v :: between ++ .woken t w :: after → ∃ u, .asked t u ∈ between
  /-- A future that was never polled has no waker woken. -/
  polled : ∀ t w, .woken t w ∈ h → .asked t w ∈ h

theorem Paired.answers {h : List (Call ω)} (hh : Paired h) : Answers h := by
  refine ⟨hh, ?_, ?_⟩
  · intro before t v between w after heq
    have hlast := hh _ t w after heq
    rcases List.eq_nil_or_concat between with rfl | ⟨init, c, rfl⟩
    · simp at hlast
    · have hend : before ++ .woken t v :: init.concat c
        = (before ++ .woken t v :: init) ++ [c] := by simp
      rw [hend, List.getLast?_concat] at hlast
      cases hlast
      exact ⟨w, by simp⟩
  · intro t w hmem
    obtain ⟨before, after, heq⟩ := List.append_of_mem hmem
    have hasked := List.mem_of_getLast? (hh before t w after heq)
    rw [heq]
    exact List.mem_append_left _ hasked

/-- The last entry of a kind determines where a list is cut. -/
theorem last_of_kind {β : Type} {P : β → Prop} {before pre after rest : List β} {a b : β}
    (h : before ++ a :: after = pre ++ b :: rest) (ha : P a) (hb : P b)
    (hafter : ∀ c ∈ after, ¬ P c) (hrest : ∀ c ∈ rest, ¬ P c) :
    a = b ∧ after = rest := by
  rcases List.append_eq_append_iff.mp h with ⟨gap, rfl, heq⟩ | ⟨gap, rfl, heq⟩
  · cases gap with
    | nil => exact List.cons.inj heq
    | cons g gap =>
      obtain ⟨-, rfl⟩ := List.cons.inj heq
      exact absurd hb (hafter b (by simp))
  · cases gap with
    | nil =>
      obtain ⟨hab, hrest⟩ := List.cons.inj heq
      exact ⟨hab.symm, hrest.symm⟩
    | cons g gap =>
      obtain ⟨-, rfl⟩ := List.cons.inj heq
      exact absurd ha (hrest a (by simp))

/-- How a queue stands to the waker of the last pending poll, after which came `rest`. -/
inductive Heeds (q : Queue α κ ω) (t : Nat) (w : ω) (rest : List (Call ω)) : Prop
  /-- There is nothing to deliver, and the waker is stored. -/
  | stored (unready : q.isReady = false) (wait : q.waiting = .future t (some w))
      (nothing : rest = [])
  /-- There is, and the waker was woken once. -/
  | woken (ready : q.isReady = true) (once : rest = [.woken t w])

theorem Attended.heeds {q : Queue α κ ω} {before rest : List (Call ω)} {t : Nat} {w : ω}
    {o : Option ω} (ha : Attended q (before ++ .asked t w :: rest))
    (hwait : q.waiting = .future t o) (hlast : ∀ c ∈ rest, ¬ c.Asks t) : Heeds q t w rest := by
  cases o with
  | none =>
    rcases ha.taken t hwait with hnever | ⟨pre, v, heq, hready⟩
    · exact absurd (by simp) (hnever w)
    · have hwoken : ∀ c ∈ [Call.woken t v], ¬ c.Asks t := by
        intro c hc
        cases List.mem_singleton.mp hc
        exact nofun
      obtain ⟨hsame, rfl⟩ := last_of_kind heq ⟨w, rfl⟩ ⟨v, rfl⟩ hlast hwoken
      cases hsame
      exact .woken hready rfl
  | some v =>
    obtain ⟨hpoll, hunready⟩ := ha.stored t v hwait
    obtain ⟨pre, heq⟩ := List.getLast?_eq_some_iff.mp hpoll
    obtain ⟨hsame, rfl⟩ := last_of_kind heq ⟨w, rfl⟩ ⟨v, rfl⟩ hlast (by simp)
    cases hsame
    exact .stored hunready hwait rfl

namespace Exchange

/-- A queue that is ready gives a result to the next poll of the future that waits on it. -/
theorem delivered_of_ready {x : Exchange α κ ω} {q t : Nat} (id : Int) (waker : ω)
    (hwait : (x.queue q).waiting.ticket? = some t) (hready : (x.queue q).isReady = true) :
    ∃ d, (x.pollPop id q t waker).1 = .delivered d := by
  rw [polled_pollPop]
  rw [← Queue.nextResult?_isSome] at hready
  obtain ⟨hother, -⟩ | ⟨-, d, r, -, hpoll⟩ | ⟨-, hnone, -⟩ :=
    (x.queue q).poll_cases t waker
  · exact absurd hwait hother
  · rw [hpoll]
    exact ⟨d, rfl⟩
  · rw [hnone] at hready
    cases hready

/-! ### Along every run -/

theorem attended_after (ops : List (Op α κ ω)) :
    IsValid (after {} ops) ∧ Issued (after {} ops) ∧ (after {} ops).woken = wakings {} ops ∧
      ∀ q, Attended ((after {} ops).queue q) (callsOn {} q ops) := by
  refine foldl_induction step (P := fun ops x => IsValid x ∧ Issued x ∧
    x.woken = wakings {} ops ∧ ∀ q, Attended (x.queue q) (callsOn {} q ops)) ?_ ?_ ops
  · refine ⟨isValid_start, issued_start, rfl, ?_⟩
    intro q
    rw [queue_eq_fresh (Nat.zero_le q)]
    exact .start
  · intro ops op ⟨hx, hi, hwoken, hattended⟩
    have halerts := alerts hx hi op
    refine ⟨hx.step op, hi.step hx op, ?_, ?_⟩
    · rw [halerts.woken, hwoken, wakings_concat]
      rfl
    · intro q
      rw [callsOn_concat]
      exact (hattended q).step (halerts.attends q)

/--
**No registered future misses its wake-up.**

After any operations, the wakers that were woken are those of `calls`, and on each queue every
waking answers one pending poll.  If a future still waits, and its last poll was made with `w` and
found nothing, then either `w` is stored and there is nothing to deliver, or `w` was woken since,
once, and the next poll is given a result.
-/
theorem wakings_of_run (ops : List (Op α κ ω)) :
    (after {} ops).woken = wakings {} ops ∧ ∀ q, Answers (callsOn {} q ops) ∧
      ∀ id t, (after {} ops).pops.get? id = some ⟨q, some t⟩ →
        ((after {} ops).queue q).waiting.ticket? = some t →
        (∀ other, (after {} ops).pops.get? other = some ⟨q, some t⟩ → other = id) ∧
        (∀ before w rest, callsOn {} q ops = before ++ .asked t w :: rest →
          (∀ c ∈ rest, ¬ c.Asks t) → Heeds ((after {} ops).queue q) t w rest) ∧
        (((after {} ops).queue q).isReady = true → ∀ waker,
          ∃ d, ((after {} ops).pollPop id q t waker).1 = .delivered d) := by
  obtain ⟨-, hi, hwoken, hattended⟩ := attended_after ops
  refine ⟨hwoken, ?_⟩
  intro q
  refine ⟨(hattended q).paired.answers, ?_⟩
  intro id t hpop hticket
  refine ⟨?_, ?_, ?_⟩
  · intro other hother
    exact hi.alone other id q t hother hpop
  · intro before w rest heq hlast
    have hattended := hattended q
    rw [heq] at hattended
    cases hwait : ((after {} ops).queue q).waiting with
    | idle => rw [hwait] at hticket; cases hticket
    | callback u k =>
      rw [hwait] at hticket
      cases hticket
      exact absurd hwait (hi.future id q t k hpop)
    | future u o =>
      rw [hwait] at hticket
      cases hticket
      exact hattended.heeds hwait hlast
  · intro hready waker
    exact delivered_of_ready id waker hticket hready

/-- Two polls, two pushes: the second waker is woken, once. -/
example : ({} : Exchange Nat Unit Char).wakings
    [.create 0, .pop 0 0, .poll 0 'a', .poll 0 'b', .push 0 3, .push 0 4] = ['b'] := rfl

end Exchange

end Dialogue.Handoff
