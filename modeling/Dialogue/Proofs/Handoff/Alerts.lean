/-
What each operation does to the waits, and whom it wakes.

A notification does something to a waiting future only if a waker is stored with it: it takes the
waker out and wakes it.  A waker is stored by a pending poll, in place of any that was stored
before.  A waker stands for the task that it wakes, so it makes no difference here whether a poll
keeps a stored waker of the same task or replaces it.

`call?` reads off an operation, before it is performed, whether it is a pending poll or wakes
somebody, and on which queue.  `Attends` says exactly what becomes of a wait then, and `Alerts` says
so of every queue at once, and that nobody else is woken.  Tickets are never given out twice, so a
queue and a ticket name one future.
-/
import Dialogue.Proofs.Handoff.Marks

namespace Dialogue.Handoff

variable {α κ ω : Type}

/-- What passes between a waiting future and those who poll it. -/
inductive Call (ω : Type)
  /-- A poll with this waker found nothing. -/
  | asked (ticket : Nat) (waker : ω)
  /-- The waker that was left with the wait was woken. -/
  | woken (ticket : Nat) (waker : ω)

namespace Call

def waker? : Call ω → Option ω
  | asked _ _ => none
  | woken _ w => some w

/-- The call is a pending poll of the future with this ticket. -/
def Asks (t : Nat) (c : Call ω) : Prop :=
  ∃ w, c = asked t w

end Call

/-- The waker that is stored with a wait, and the ticket of the wait. -/
def Waiting.waker? : Waiting κ ω → Option (Nat × ω)
  | future t (some w) => some (t, w)
  | _ => none

theorem Waiting.waker?_eq_some {wait : Waiting κ ω} {t : Nat} {w : ω} :
    wait.waker? = some (t, w) ↔ wait = future t (some w) := by
  cases wait with
  | idle => simp [waker?]
  | callback u k => simp [waker?]
  | future u o => cases o <;> simp [waker?]

def Notice.waker? : Notice ω → Option ω
  | post => none
  | wake w => some w

/-! ### Notifying -/

/-- A wait that is not a callback's is a future's. -/
theorem Waiting.eq_future {w : Waiting κ ω} {t : Nat} (h : w.ticket? = some t)
    (hfuture : ∀ k, w ≠ .callback t k) : ∃ o, w = .future t o := by
  cases w with
  | idle => cases h
  | callback u k =>
    cases h
    exact absurd rfl (hfuture k)
  | future u o =>
    cases h
    exact ⟨o, rfl⟩

namespace Queue

/-- A notification that finds no waker changes nothing. -/
theorem notify_of_no_waker {q : Queue α κ ω} (h : q.waiting.waker? = none) :
    q.notify.2 = q ∧ q.notify.1.bind Notice.waker? = none := by
  obtain ⟨values, wait, cancelled, next⟩ := q
  unfold notify
  split
  · cases wait with
    | idle => exact ⟨rfl, rfl⟩
    | callback t k => exact ⟨rfl, rfl⟩
    | future t o =>
      cases o with
      | none => exact ⟨rfl, rfl⟩
      | some w => cases h
  · exact ⟨rfl, rfl⟩

/-- The first notification takes the waker. -/
theorem notify_of_waker {q : Queue α κ ω} {t : Nat} {w : ω} (h : q.waiting = .future t (some w))
    (hready : q.isReady = true) :
    q.notify = (some (.wake w), { q with waiting := .future t none }) := by
  unfold notify
  rw [if_pos hready, h]
  rfl

/-- A pending poll leaves its waker, whichever was left before. -/
theorem poll_of_future {q : Queue α κ ω} {t : Nat} {o : Option ω} (waker : ω)
    (h : q.waiting = .future t o) (hnone : q.nextResult? = none) :
    q.poll t waker = (.pending, { q with waiting := .future t (some waker) }) := by
  have hticket : q.waiting.ticket? = some t := by rw [h]; rfl
  rw [poll, if_pos hticket, hnone, h]

theorem nextTicket_of_nextResult? {q r : Queue α κ ω} {d : Delivery α}
    (h : q.nextResult? = some (d, r)) : r.nextTicket = q.nextTicket := by
  obtain ⟨-, -, rfl⟩ | ⟨-, a, rest, -, -, rfl⟩ := of_nextResult? h
  · rfl
  · rfl

/-- A wait begins as it is made, unless a waker comes with it. -/
theorem waiting_wait? {q q' : Queue α κ ω} {make : Nat → Waiting κ ω} {t : Nat}
    {notice : Option (Notice ω)} (hmake : ∀ t, (make t).waker? = none)
    (h : q.wait? make = some (t, notice, q')) :
    t = q.nextTicket ∧ q'.waiting = make t ∧ q'.nextTicket = t + 1 ∧
      notice.bind Notice.waker? = none := by
  unfold wait? at h
  split at h
  · cases h
  · simp only [Option.some.injEq, Prod.mk.injEq] at h
    obtain ⟨rfl, hn⟩ := h
    obtain ⟨rfl, rfl⟩ := Prod.ext_iff.mp hn
    obtain ⟨hsame, hquiet⟩ := notify_of_no_waker (q := { q with
      waiting := make q.nextTicket, nextTicket := q.nextTicket + 1 }) (hmake _)
    rw [hsame]
    exact ⟨rfl, rfl, rfl, hquiet⟩

end Queue

/-- What becomes of the wait on a queue in an operation with this call. -/
inductive Attends (old new : Queue α κ ω) : Option (Call ω) → Prop
  /-- The wait goes on.  Something may be pushed, but not while a waker is stored. -/
  | rests (wait : new.waiting = old.waiting) (next : new.nextTicket = old.nextTicket)
      (ready : old.isReady = true → new.isReady = true)
      (stored : ∀ c, old.waiting.waker? = some c → new.isReady = old.isReady) :
      Attends old new none
  | ends (wait : new.waiting = .idle) (next : new.nextTicket = old.nextTicket) :
      Attends old new none
  | begins (ticket : new.waiting.ticket? = some old.nextTicket) (waker : new.waiting.waker? = none)
      (next : new.nextTicket = old.nextTicket + 1) : Attends old new none
  /-- A poll finds nothing and leaves its waker. -/
  | asks {t o w} (wait : old.waiting = .future t o) (unready : old.isReady = false)
      (queue : new = { old with waiting := .future t (some w) }) :
      Attends old new (some (.asked t w))
  | wakes {t w} (stored : old.waiting = .future t (some w)) (taken : new.waiting = .future t none)
      (next : new.nextTicket = old.nextTicket) (ready : new.isReady = true) :
      Attends old new (some (.woken t w))

namespace Attends

variable {old new : Queue α κ ω} {c : Option (Call ω)}

theorem refl (q : Queue α κ ω) : Attends q q none :=
  .rests rfl rfl id fun _ _ => rfl

theorem next_le (h : Attends old new c) : old.nextTicket ≤ new.nextTicket := by
  cases h with
  | rests _ next _ _ => exact Nat.le_of_eq next.symm
  | ends _ next => exact Nat.le_of_eq next.symm
  | begins _ _ next => omega
  | asks _ _ queue => subst queue; exact Nat.le_refl _
  | wakes _ _ next _ => exact Nat.le_of_eq next.symm

/-- A callback that waits waited before, unless its ticket is new. -/
theorem callback (h : Attends old new c) {t : Nat} {k : κ} (hwait : new.waiting = .callback t k) :
    old.waiting = .callback t k ∨ t = old.nextTicket := by
  cases h with
  | rests wait _ _ _ => exact .inl (wait ▸ hwait)
  | ends wait _ => rw [wait] at hwait; cases hwait
  | begins ticket _ _ =>
    rw [hwait] at ticket
    exact .inr (Option.some.inj ticket)
  | asks _ _ queue => rw [queue] at hwait; cases hwait
  | wakes _ taken _ _ => rw [taken] at hwait; cases hwait

/-- A queue that is notified when it became ready. -/
theorem notify {r : Queue α κ ω} (hwait : r.waiting = old.waiting)
    (hnext : r.nextTicket = old.nextTicket) (hready : r.isReady = true) :
    Attends old r.notify.2 (old.waiting.waker?.map fun s => .woken s.1 s.2) := by
  cases hw : old.waiting.waker? with
  | none =>
    obtain ⟨hsame, -⟩ := Queue.notify_of_no_waker (q := r) (by rw [hwait, hw])
    rw [hsame]
    refine .rests hwait hnext (fun _ => hready) ?_
    intro c hc
    rw [hw] at hc
    cases hc
  | some s =>
    obtain ⟨t, w⟩ := s
    have hstored := Waiting.waker?_eq_some.mp hw
    rw [Queue.notify_of_waker (hwait.trans hstored) hready]
    exact .wakes hstored rfl hnext hready

end Attends

namespace Exchange

variable {x : Exchange α κ ω}

/-! ### The calls of a run -/

/-- The queue that an operation pushes to or stops. -/
def notified? (x : Exchange α κ ω) : Op α κ ω → Option Nat
  | .push h _ | .stop h => x.handles.get? h
  | op => x.handles.values.find? (x.losesHandles · op)

/-- The waker that an operation wakes. -/
def wakes? (x : Exchange α κ ω) (op : Op α κ ω) : Option (Nat × Call ω) :=
  (x.notified? op).bind fun q => (x.queue q).waiting.waker?.map fun s => (q, .woken s.1 s.2)

/-- The poll that finds nothing, if the operation is one. -/
def asks? (x : Exchange α κ ω) : Op α κ ω → Option (Nat × Call ω)
  | .poll id waker =>
    match x.pops.get? id with
    | some ⟨q, some t⟩ =>
      match (x.pollPop id q t waker).1 with
      | .pending => some (q, .asked t waker)
      | _ => none
    | _ => none
  | _ => none

/-- A pending poll or a waking; no operation is both. -/
def call? (x : Exchange α κ ω) (op : Op α κ ω) : Option (Nat × Call ω) :=
  (x.wakes? op).or (x.asks? op)

/-- All pending polls and wakings of a run, each with its queue. -/
def calls (x : Exchange α κ ω) (ops : List (Op α κ ω)) : List (Nat × Call ω) :=
  seen step call? x ops

/-- Those of one queue. -/
def callsOn (x : Exchange α κ ω) (q : Nat) (ops : List (Op α κ ω)) : List (Call ω) :=
  (x.calls ops).filterMap (on? q)

/-- The wakers that are woken in a run, in order. -/
def wakings (x : Exchange α κ ω) (ops : List (Op α κ ω)) : List ω :=
  (x.calls ops).filterMap (·.2.waker?)

theorem callsOn_concat (q : Nat) (ops : List (Op α κ ω)) (op : Op α κ ω) :
    x.callsOn q (ops ++ [op])
      = x.callsOn q ops ++ (((x.after ops).call? op).bind (on? q)).toList := by
  rw [callsOn, callsOn, calls, calls, filterMap_seen, filterMap_seen]
  exact seen_concat _ _ _ _ _

theorem wakings_concat (ops : List (Op α κ ω)) (op : Op α κ ω) :
    x.wakings (ops ++ [op])
      = x.wakings ops ++ (((x.after ops).call? op).bind (·.2.waker?)).toList := by
  rw [wakings, wakings, calls, calls, filterMap_seen, filterMap_seen]
  exact seen_concat _ _ _ _ _

/-! ### Pushing, stopping and moving handles -/

theorem woken_dispatch (x : Exchange α κ ω) (q : Nat) (n : Option (Notice ω)) :
    (x.dispatch q n).2.woken = x.woken ++ (n.bind Notice.waker?).toList := by
  unfold dispatch
  split
  · simp
  · rfl
  · split
    · simp [Notice.waker?]
    · simp [Notice.waker?]

theorem woken_commit (x : Exchange α κ ω) (q : Nat) (r : Option (Notice ω) × Queue α κ ω) :
    (x.commit q r).2.woken = x.woken ++ (r.1.bind Notice.waker?).toList :=
  woken_dispatch _ _ _

theorem pops_commit (x : Exchange α κ ω) (q : Nat) (r : Option (Notice ω) × Queue α κ ω) :
    (x.commit q r).2.pops = x.pops := by
  unfold commit dispatch
  split
  · rfl
  · rfl
  · split <;> rfl

/-- What an operation that pushes, stops or moves handles comes to. -/
inductive Notifies (x : Exchange α κ ω) (op : Op α κ ω) : Exchange α κ ω → Prop
  | nobody {y} (same : SameButHandles x y) (none : x.notified? op = none) : Notifies x op y
  /-- A queue became ready, and its wait is notified. -/
  | queue {y p} {r : Queue α κ ω} (same : SameButHandles x y) (made : p < y.queues.length)
      (wait : r.waiting = (x.queue p).waiting) (next : r.nextTicket = (x.queue p).nextTicket)
      (ready : r.isReady = true) (queue : x.notified? op = some p) :
      Notifies x op (y.commit p r.notify).2

theorem notifies_of_movesHandle (hx : IsValid x) {op : Op α κ ω} (hop : op.movesHandle = true) :
    Notifies x op (x.step op) := by
  have hfind : x.notified? op = x.handles.values.find? (x.losesHandles · op) := by
    cases op with
    | push h a => cases hop
    | stop h => cases hop
    | _ => rfl
  have hmoves := movesHandles hx hop
  generalize x.step op = y at hmoves
  cases hmoves with
  | keeps same lost =>
    refine .nobody same ?_
    rw [hfind, List.find?_eq_none]
    intro q _
    rw [lost]
    simp
  | @stops y old same made lost =>
    have hlost : x.losesHandles old op = true := (lost old).mpr rfl
    have hfound : x.notified? op = some old := by
      rw [hfind]
      cases hq : x.handles.values.find? (x.losesHandles · op) with
      | none =>
        have hmem : old ∈ x.handles.values := (of_decide_eq_true hlost).1
        exact absurd hlost (List.find?_eq_none.mp hq old hmem)
      | some q =>
        have hlost := List.find?_some hq
        rw [(lost q).mp hlost]
    refine .queue (r := { y.queue old with values := [], cancelled := true }) same made ?_ ?_
      rfl hfound
    · rw [same.queue]
    · rw [same.queue]

theorem notifies_push (hx : IsValid x) (h : Int) (a : α) :
    Notifies x (.push h a) (x.step (.push h a)) := by
  simp only [step, via]
  split
  · next hnone => exact .nobody (.refl x) hnone
  · next p hp =>
    have hmade := hx.made p (Table.mem_values_of_get? hp)
    refine .queue (r := { x.queue p with values := (x.queue p).values ++ [a] })
      (.refl x) hmade rfl rfl ?_ hp
    simp [Queue.isReady]

theorem notifies_stop (hx : IsValid x) (h : Int) : Notifies x (.stop h) (x.step (.stop h)) := by
  simp only [step, via]
  split
  · next hnone => exact .nobody (.refl x) hnone
  · next p hp =>
    have hmade := hx.made p (Table.mem_values_of_get? hp)
    exact .queue (r := { x.queue p with values := [], cancelled := true })
      (.refl x) hmade rfl rfl rfl hp

namespace Notifies

variable {op : Op α κ ω} {y : Exchange α κ ω}

theorem pops (h : Notifies x op y) : y.pops = x.pops := by
  cases h with
  | nobody same _ => exact same.pops
  | queue same _ _ _ _ _ => rw [pops_commit, same.pops]

theorem woken (h : Notifies x op y) :
    y.woken = x.woken ++ ((x.wakes? op).bind (·.2.waker?)).toList := by
  cases h with
  | nobody same none => simp [same.woken, wakes?, none]
  | @queue y p r same made wait next ready queue =>
    rw [woken_commit, same.woken, wakes?, queue, Option.bind_some]
    cases hw : (x.queue p).waiting.waker? with
    | none =>
      obtain ⟨-, hquiet⟩ := Queue.notify_of_no_waker (q := r) (by rw [wait, hw])
      rw [hquiet]
      rfl
    | some s =>
      obtain ⟨t, w⟩ := s
      rw [Queue.notify_of_waker (wait.trans (Waiting.waker?_eq_some.mp hw)) ready]
      rfl

theorem attends (h : Notifies x op y) (q : Nat) :
    Attends (x.queue q) (y.queue q) ((x.wakes? op).bind (on? q)) := by
  cases h with
  | nobody same none =>
    rw [same.queue, wakes?, none]
    exact .refl _
  | @queue y p r same made wait next ready queue =>
    rw [queue_commit, queue_setQueue y p q _ made, wakes?, queue, Option.bind_some, bind_on?]
    by_cases hq : q = p
    · subst hq
      rw [if_pos rfl, if_pos rfl]
      exact .notify wait next ready
    · rw [if_neg hq, if_neg (fun h => hq h.symm), same.queue]
      exact .refl _

end Notifies

/-! ### Futures -/

/-- Every ticket that a stored future holds was given out to it, and to no other future or
callback. -/
structure Issued (x : Exchange α κ ω) : Prop where
  given : ∀ id q t, x.pops.get? id = some ⟨q, some t⟩ → t < (x.queue q).nextTicket
  future : ∀ id q t k, x.pops.get? id = some ⟨q, some t⟩ →
    (x.queue q).waiting ≠ .callback t k
  alone : ∀ id other q t, x.pops.get? id = some ⟨q, some t⟩ →
    x.pops.get? other = some ⟨q, some t⟩ → id = other

/-- A future that goes away ends its own wait. -/
theorem queue_releasePop_cases (x : Exchange α κ ω) (p : Pop) (q : Nat) :
    (x.releasePop p).queue q = x.queue q ∨
      ∃ t, p = ⟨q, some t⟩ ∧ (x.queue q).waiting.ticket? = some t ∧
        (x.releasePop p).queue q = { x.queue q with waiting := .idle } := by
  obtain ⟨own, ticket⟩ := p
  cases ticket with
  | none => exact .inl rfl
  | some t =>
    simp only [releasePop]
    rcases queue_setQueue_cases x own q ((x.queue own).withdraw t) with heq | ⟨rfl, heq⟩
    · exact .inl heq
    · rw [heq, Queue.withdraw, Queue.withdraw?]
      by_cases ht : (x.queue q).waiting.ticket? = some t
      · rw [if_pos ht]
        exact .inr ⟨t, rfl, ht, rfl⟩
      · rw [if_neg ht]
        exact .inl rfl

theorem attends_releasePop (x : Exchange α κ ω) (p : Pop) (q : Nat) :
    Attends (x.queue q) ((x.releasePop p).queue q) none := by
  rcases queue_releasePop_cases x p q with heq | ⟨t, -, -, heq⟩
  · rw [heq]
    exact .refl _
  · rw [heq]
    exact .ends rfl rfl

theorem pops_releasePop (x : Exchange α κ ω) (p : Pop) : (x.releasePop p).pops = x.pops := by
  unfold releasePop
  split <;> rfl

theorem woken_releasePop (x : Exchange α κ ω) (p : Pop) : (x.releasePop p).woken = x.woken := by
  unfold releasePop
  split <;> rfl

/-- A new future is stored under a number.  One that it replaces goes away. -/
structure Registers (x : Exchange α κ ω) (id : Int) (p : Nat) (y : Exchange α κ ω) :
    Prop where
  pops : y.pops = x.pops.put id ⟨p, some (x.queue p).nextTicket⟩
  wait : (y.queue p).waiting = .future (x.queue p).nextTicket none
  next : (y.queue p).nextTicket = (x.queue p).nextTicket + 1
  others : ∀ q, q ≠ p → Attends (x.queue q) (y.queue q) none
  woken : y.woken = x.woken

theorem registers_pop (hx : IsValid x) (hi : Issued x) (h id : Int) :
    x.step (.pop h id) = x ∨ ∃ p, Registers x id p (x.step (.pop h id)) := by
  simp only [step, via]
  split
  · exact .inl rfl
  · next p hp =>
    cases hw : (x.queue p).wait? (.future · none) with
    | none =>
      refine .inl ?_
      rw [pop?, hw]
      rfl
    | some r =>
      obtain ⟨t, notice, new⟩ := r
      obtain ⟨rfl, hwait, hnext, hquiet⟩ := Queue.waiting_wait? (fun _ => rfl) hw
      refine .inr ⟨p, ?_⟩
      have hmade := hx.made p (Table.mem_values_of_get? hp)
      have hpop : (x.pop? id p).getD x
          = (x.commit p (notice, new)).2.storePop id ⟨p, some (x.queue p).nextTicket⟩ := by
        rw [pop?, hw]
        rfl
      have hqueue : ∀ q, (x.commit p (notice, new)).2.queue q
          = if q = p then new else x.queue q := by
        intro q
        rw [queue_commit, queue_setQueue x p q new hmade]
      have hpops : (x.commit p (notice, new)).2.pops = x.pops := pops_commit _ _ _
      have hwoken : (x.commit p (notice, new)).2.woken = x.woken := by
        rw [woken_commit, hquiet]
        simp
      rw [hpop, storePop, hpops]
      generalize (x.commit p (notice, new)).2 = y at hqueue hpops hwoken ⊢
      cases hold : x.pops.get? id with
      | none =>
        refine ⟨rfl, ?_, ?_, ?_, hwoken⟩
        · show (y.queue p).waiting = _
          rw [hqueue, if_pos rfl, hwait]
        · show (y.queue p).nextTicket = _
          rw [hqueue, if_pos rfl, hnext]
        · intro q hq
          show Attends _ (y.queue q) _
          rw [hqueue, if_neg hq]
          exact .refl _
      | some old =>
        -- the one that is replaced has an older ticket, so it does not end the new wait
        have hkept :
          ({ y with pops := x.pops.put id ⟨p, some (x.queue p).nextTicket⟩ }.releasePop
            old).queue p = y.queue p := by
          rcases queue_releasePop_cases { y with
            pops := x.pops.put id ⟨p, some (x.queue p).nextTicket⟩ } old p
              with heq | ⟨t, rfl, ht, -⟩
          · exact heq
          · have hlt := hi.given id p t hold
            have ht' : (y.queue p).waiting.ticket? = some t := ht
            rw [hqueue, if_pos rfl, hwait] at ht'
            cases ht'
            omega
        refine ⟨?_, ?_, ?_, ?_, ?_⟩
        · rw [pops_releasePop]
        · rw [hkept, hqueue, if_pos rfl, hwait]
        · rw [hkept, hqueue, if_pos rfl, hnext]
        · intro q hq
          have hq' : y.queue q = x.queue q := by rw [hqueue, if_neg hq]
          rw [← hq']
          exact attends_releasePop { y with
            pops := x.pops.put id ⟨p, some (x.queue p).nextTicket⟩ } old q
        · rw [woken_releasePop]
          exact hwoken

theorem attends_setQueue (x : Exchange α κ ω) (p q : Nat) {new : Queue α κ ω}
    (h : Attends (x.queue p) new none) : Attends (x.queue q) ((x.setQueue p new).queue q) none :=
  setQueue_rel (R := fun r s => Attends r s none) .refl x p q h

/-- What a poll does to the queue of its future: it asks, or it ends the wait, or it came too
late. -/
theorem attends_poll (hi : Issued x) (id : Int) (waker : ω) (q : Nat) :
    Attends (x.queue q) ((x.step (.poll id waker)).queue q)
      ((x.asks? (.poll id waker)).bind (on? q)) := by
  by_cases hwaits : ∃ p t, x.pops.get? id = some ⟨p, some t⟩
  · obtain ⟨p, t, hpop⟩ := hwaits
    simp only [step, asks?, hpop]
    rw [queue_pollPop, polled_pollPop]
    obtain ⟨-, hpoll⟩ | ⟨-, d, r, hd, hpoll⟩ | ⟨hticket, hnone, -⟩ :=
      (x.queue p).poll_cases t waker
    · rw [hpoll, queue_setQueue_self]
      exact .refl _
    · rw [hpoll]
      have hnext := Queue.nextTicket_of_nextResult? hd
      exact attends_setQueue x p q (.ends rfl hnext)
    · obtain ⟨o, hwait⟩ := Waiting.eq_future hticket fun k => hi.future id p t k hpop
      have hunready : (x.queue p).isReady = false := by
        rw [← Queue.nextResult?_isSome, hnone]
        rfl
      rw [Queue.poll_of_future waker hwait hnone,
        queue_setQueue x p q _ (lt_length_of_ticket hticket)]
      show Attends _ _ (on? q (p, .asked t waker))
      by_cases hq : q = p
      · subst hq
        rw [if_pos rfl, on?, if_pos rfl]
        exact .asks hwait hunready rfl
      · rw [if_neg hq, on?, if_neg (fun h => hq h.symm)]
        exact .refl _
  · have hnone : x.asks? (.poll id waker) = none := by
      simp only [asks?]
      split
      · next p t hpop => exact absurd ⟨p, t, hpop⟩ hwaits
      · rfl
    rw [step_poll_of_not_waits hwaits, hnone]
    exact .refl _

/-! ### Every operation -/

theorem attends_asyncPop (h : Int) (handler : κ) (q : Nat) :
    Attends (x.queue q) ((x.step (.asyncPop h handler)).queue q) none := by
  simp only [step, via]
  split
  · exact .refl _
  · next p _ =>
    unfold asyncPop?
    cases hw : (x.queue p).wait? (.callback · handler) with
    | none => exact .refl _
    | some r =>
      obtain ⟨t, notice, new⟩ := r
      obtain ⟨rfl, hwait, hnext, -⟩ := Queue.waiting_wait? (fun _ => rfl) hw
      show Attends _ ((x.commit p (notice, new)).2.queue q) none
      rw [queue_commit]
      refine attends_setQueue x p q (.begins ?_ ?_ hnext)
      · rw [hwait]
        rfl
      · rw [hwait]
        rfl

theorem attends_dropPop (id : Int) (q : Nat) :
    Attends (x.queue q) ((x.step (.dropPop id)).queue q) none := by
  simp only [step, dropPop]
  split
  · exact .refl _
  · next p _ => exact attends_releasePop { x with pops := x.pops.erase id } p q

theorem attends_withdraw (h : Int) (t : Nat) (q : Nat) :
    Attends (x.queue q) ((x.step (.withdraw h t)).queue q) none := by
  simp only [step, via]
  split
  · exact .refl _
  · next p _ =>
    unfold withdraw Queue.withdraw?
    by_cases ht : (x.queue p).waiting.ticket? = some t
    · rw [if_pos ht]
      exact attends_setQueue x p q (.ends rfl rfl)
    · rw [if_neg ht]
      exact .refl _

theorem attends_runJob (q : Nat) : Attends (x.queue q) ((x.step .runJob).queue q) none := by
  simp only [step, nextJob?]
  cases x.jobs.next? with
  | none => exact .refl _
  | some job =>
    obtain ⟨p, jobs⟩ := job
    dsimp only [Option.map_some]
    cases hk : (({ x with jobs := jobs } : Exchange α κ ω).queue p).takeCallback? with
    | none => exact .refl _
    | some taken =>
      obtain ⟨handler, d, new⟩ := taken
      obtain ⟨t, r, -, hd, rfl⟩ := Queue.of_takeCallback? hk
      have hnext := Queue.nextTicket_of_nextResult? hd
      exact attends_setQueue { x with jobs := jobs } p q (.ends rfl hnext)

theorem woken_asyncPop (h : Int) (handler : κ) :
    (x.step (.asyncPop h handler)).woken = x.woken := by
  simp only [step, via]
  split
  · rfl
  · next p _ =>
    unfold asyncPop?
    cases hw : (x.queue p).wait? (.callback · handler) with
    | none => rfl
    | some r =>
      obtain ⟨t, notice, new⟩ := r
      obtain ⟨-, -, -, hquiet⟩ := Queue.waiting_wait? (fun _ => rfl) hw
      show (x.commit p (notice, new)).2.woken = x.woken
      rw [woken_commit, hquiet]
      simp

theorem woken_poll (id : Int) (waker : ω) : (x.step (.poll id waker)).woken = x.woken := by
  simp only [step]
  split
  · unfold pollPop
    dsimp only
    split <;> rfl
  · rfl

theorem woken_dropPop (id : Int) : (x.step (.dropPop id)).woken = x.woken := by
  simp only [step, dropPop]
  split
  · rfl
  · rw [woken_releasePop]

theorem woken_withdraw (h : Int) (t : Nat) : (x.step (.withdraw h t)).woken = x.woken := by
  simp only [step, via]
  split
  · rfl
  · unfold withdraw
    split <;> rfl

theorem woken_runJob : (x.step .runJob).woken = x.woken := by
  simp only [step, nextJob?]
  cases x.jobs.next? with
  | none => rfl
  | some job =>
    dsimp only [Option.map_some]
    split <;> rfl

/-- What an operation does to the wakers: those it wakes are read off `call?`, and every wait
undergoes what its call says. -/
structure Alerts (x : Exchange α κ ω) (op : Op α κ ω) : Prop where
  woken : (x.step op).woken = x.woken ++ ((x.call? op).bind (·.2.waker?)).toList
  attends : ∀ q, Attends (x.queue q) ((x.step op).queue q) ((x.call? op).bind (on? q))

theorem alerts_of_notifies {op : Op α κ ω} (h : Notifies x op (x.step op))
    (hasks : x.asks? op = none) : Alerts x op := by
  have hcall : x.call? op = x.wakes? op := by rw [call?, hasks, Option.or_none]
  refine ⟨?_, ?_⟩
  · rw [hcall]
    exact h.woken
  · intro q
    rw [hcall]
    exact h.attends q

/-- Only an operation that moves handles takes a last handle away. -/
theorem find?_losesHandles (x : Exchange α κ ω) (op : Op α κ ω)
    (hop : op.movesHandle = false) : x.handles.values.find? (x.losesHandles · op) = none := by
  rw [List.find?_eq_none]
  intro q _
  rw [losesHandles_of_same q (handles_step x hop).1]
  simp

theorem alerts_of_silent {op : Op α κ ω} (hnone : x.notified? op = none)
    (hasks : x.asks? op = none) (hwoken : (x.step op).woken = x.woken)
    (hqueue : ∀ q, Attends (x.queue q) ((x.step op).queue q) none) : Alerts x op := by
  have hcall : x.call? op = none := by
    rw [call?, wakes?, hnone, hasks]
    rfl
  refine ⟨?_, ?_⟩
  · rw [hcall, hwoken]
    simp
  · intro q
    rw [hcall]
    exact hqueue q

theorem alerts_poll (hi : Issued x) (id : Int) (waker : ω) : Alerts x (.poll id waker) := by
  have hnone : x.notified? (.poll id waker) = none :=
    find?_losesHandles x (.poll id waker) rfl
  have hcall : x.call? (.poll id waker) = x.asks? (.poll id waker) := by
    rw [call?, wakes?, hnone]
    rfl
  refine ⟨?_, ?_⟩
  · have hsilent : (x.asks? (.poll id waker)).bind (·.2.waker?) = none := by
      unfold asks?
      dsimp only
      split
      · split <;> rfl
      · rfl
    rw [hcall, hsilent, woken_poll]
    simp
  · intro q
    rw [hcall]
    exact attends_poll hi id waker q

theorem alerts_pop (hx : IsValid x) (hi : Issued x) (h id : Int) : Alerts x (.pop h id) := by
  refine alerts_of_silent ?_ rfl ?_ ?_
  · exact find?_losesHandles x (.pop h id) rfl
  · obtain heq | ⟨p, hp⟩ := registers_pop hx hi h id
    · rw [heq]
    · exact hp.woken
  · intro q
    obtain heq | ⟨p, hp⟩ := registers_pop hx hi h id
    · rw [heq]
      exact .refl _
    · by_cases hq : q = p
      · subst hq
        refine .begins ?_ ?_ hp.next
        · rw [hp.wait]
          rfl
        · rw [hp.wait]
          rfl
      · exact hp.others q hq

theorem alerts (hx : IsValid x) (hi : Issued x) (op : Op α κ ω) : Alerts x op := by
  cases op with
  | create h => exact alerts_of_notifies (notifies_of_movesHandle hx rfl) rfl
  | clone h target => exact alerts_of_notifies (notifies_of_movesHandle hx rfl) rfl
  | drop h => exact alerts_of_notifies (notifies_of_movesHandle hx rfl) rfl
  | push h a => exact alerts_of_notifies (notifies_push hx h a) rfl
  | stop h => exact alerts_of_notifies (notifies_stop hx h) rfl
  | asyncPop h handler =>
    have hnone := find?_losesHandles x (.asyncPop h handler) rfl
    exact alerts_of_silent hnone rfl (woken_asyncPop h handler) (attends_asyncPop h handler)
  | pop h id => exact alerts_pop hx hi h id
  | poll id waker => exact alerts_poll hi id waker
  | dropPop id =>
    have hnone := find?_losesHandles x (.dropPop id) rfl
    exact alerts_of_silent hnone rfl (woken_dropPop id) (attends_dropPop id)
  | withdraw h t =>
    have hnone := find?_losesHandles x (.withdraw h t) rfl
    exact alerts_of_silent hnone rfl (woken_withdraw h t) (attends_withdraw h t)
  | runJob =>
    have hnone := find?_losesHandles x .runJob rfl
    exact alerts_of_silent hnone rfl woken_runJob attends_runJob
  | executor jobs =>
    have hnone := find?_losesHandles x (.executor jobs) rfl
    exact alerts_of_silent hnone rfl rfl (fun _ => .refl _)

/-! ### Tickets are given out once -/

theorem pops_runJob : (x.step .runJob).pops = x.pops := by
  simp only [step, nextJob?]
  cases x.jobs.next? with
  | none => rfl
  | some job =>
    dsimp only [Option.map_some]
    split <;> rfl

theorem pops_asyncPop (h : Int) (handler : κ) : (x.step (.asyncPop h handler)).pops = x.pops := by
  simp only [step, via]
  split
  · rfl
  · next p _ =>
    unfold asyncPop?
    cases (x.queue p).wait? (.callback · handler) with
    | none => rfl
    | some r => exact pops_commit _ _ _

theorem pops_withdraw (h : Int) (t : Nat) : (x.step (.withdraw h t)).pops = x.pops := by
  simp only [step, via]
  split
  · rfl
  · unfold withdraw
    split <;> rfl

/-- A future that waits after an operation waited before, or it was made in it. -/
theorem stored_step (hx : IsValid x) (hi : Issued x) {op : Op α κ ω} {id : Int} {q t : Nat}
    (h : (x.step op).pops.get? id = some ⟨q, some t⟩) :
    x.pops.get? id = some ⟨q, some t⟩ ∨
      ∃ n, op = .pop n id ∧ t = (x.queue q).nextTicket ∧ Registers x id q (x.step op) := by
  have same : (x.step op).pops = x.pops → x.pops.get? id = some ⟨q, some t⟩ :=
    fun hpops => hpops ▸ h
  cases op with
  | create n => exact .inl (same (notifies_of_movesHandle hx rfl).pops)
  | clone n target => exact .inl (same (notifies_of_movesHandle hx rfl).pops)
  | drop n => exact .inl (same (notifies_of_movesHandle hx rfl).pops)
  | push n a => exact .inl (same (notifies_push hx n a).pops)
  | stop n => exact .inl (same (notifies_stop hx n).pops)
  | asyncPop n handler => exact .inl (same (pops_asyncPop n handler))
  | pop n other =>
    obtain heq | ⟨p, hp⟩ := registers_pop hx hi n other
    · exact .inl (same (congrArg pops heq))
    · rw [hp.pops, Table.get?_put] at h
      split at h
      · next hid =>
        cases h
        subst hid
        exact .inr ⟨n, rfl, rfl, hp⟩
      · exact .inl h
  | poll other waker =>
    refine .inl ?_
    simp only [step] at h
    split at h
    · unfold pollPop at h
      dsimp only at h
      split at h
      · exact h
      · -- a future that resolved holds no ticket
        rw [Table.get?_put] at h
        split at h
        · cases h
        · exact h
    · exact h
  | dropPop other =>
    refine .inl ?_
    simp only [step, dropPop] at h
    split at h
    · exact h
    · rw [pops_releasePop, Table.get?_erase] at h
      split at h
      · cases h
      · exact h
  | withdraw n u => exact .inl (same (pops_withdraw n u))
  | runJob => exact .inl (same pops_runJob)
  | executor jobs => exact .inl h

theorem Issued.step (hi : Issued x) (hx : IsValid x) (op : Op α κ ω) : Issued (x.step op) := by
  have hattends := (alerts hx hi op).attends
  refine ⟨?_, ?_, ?_⟩
  · intro id q t hpop
    rcases stored_step hx hi hpop with hold | ⟨n, rfl, rfl, hregisters⟩
    · have hlt := hi.given id q t hold
      have hle := (hattends q).next_le
      omega
    · rw [hregisters.next]
      omega
  · intro id q t k hpop hwait
    rcases stored_step hx hi hpop with hold | ⟨n, rfl, rfl, hregisters⟩
    · have hlt := hi.given id q t hold
      rcases (hattends q).callback hwait with hcallback | hnew
      · exact hi.future id q t k hold hcallback
      · omega
    · rw [hregisters.wait] at hwait
      cases hwait
  · intro id other q t hpop hother
    rcases stored_step hx hi hpop with hold | ⟨n, hop, ht, -⟩
    · have hlt := hi.given id q t hold
      rcases stored_step hx hi hother with hold' | ⟨n, -, rfl, -⟩
      · exact hi.alone id other q t hold hold'
      · omega
    · rcases stored_step hx hi hother with hold' | ⟨m, hop', -, -⟩
      · have hlt := hi.given other q t hold'
        omega
      · rw [hop] at hop'
        cases hop'
        rfl

theorem issued_start : Issued ({} : Exchange α κ ω) := by
  refine ⟨?_, ?_, ?_⟩
  · intro id q t h
    cases h
  · intro id q t k h
    cases h
  · intro id other q t h
    cases h

end Exchange

end Dialogue.Handoff
