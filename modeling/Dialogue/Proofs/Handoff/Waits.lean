/-
What becomes of every wait.

A wait begins with a callback or with a future and gets the next number as its ticket.  It is
served, by the job that calls its callback or by a poll of its future, or it is withdrawn: through
its ticket, or because its future went away.  `turn?` reads off an operation, from what the
operation itself answers, which of these happens on a queue, and `Turns` says exactly what becomes
of the wait then.

The induction is on the run.  What carries it is one equation about numbers: the tickets of the
waits that ended, in the order in which they did, and the ticket of the wait in progress are all the
tickets that were given out.  So no wait ends twice, none is withdrawn through the ticket of
another, and the one in progress is the last that began.
-/
import Dialogue.Proofs.Handoff.Alerts
import Dialogue.Proofs.Handoff.Plays
import Mathlib.Data.List.Pairwise

namespace Dialogue.Handoff

variable {α κ ω : Type}

/-- How a wait begins and ends.  One that a future makes has no callback. -/
inductive Turn (α κ : Type)
  | began (ticket : Nat) (callback : Option κ)
  | served (ticket : Nat) (callback : Option κ) (d : Delivery α)
  | withdrawn (ticket : Nat)

namespace Turn

def begun? : Turn α κ → Option Nat
  | began t _ => some t
  | _ => none

def ended? : Turn α κ → Option Nat
  | began _ _ => none
  | served t _ _ => some t
  | withdrawn t => some t

end Turn

/-- The tickets that were given out, in order. -/
def begun (h : List (Turn α κ)) : List Nat :=
  h.filterMap Turn.begun?

/-- The tickets of the waits that ended, in order. -/
def ended (h : List (Turn α κ)) : List Nat :=
  h.filterMap Turn.ended?

/-- The wait with a ticket began and did not end. -/
def IsOutstanding (h : List (Turn α κ)) (t : Nat) : Prop :=
  t ∈ begun h ∧ t ∉ ended h

/-- The ticket of the wait in progress, and its callback if it has one. -/
def Waiting.claim? : Waiting κ ω → Option (Nat × Option κ)
  | idle => none
  | callback t k => some (t, some k)
  | future t _ => some (t, none)

namespace Waiting

theorem map_fst_claim? (w : Waiting κ ω) : w.claim?.map Prod.fst = w.ticket? := by
  cases w <;> rfl

theorem claim?_eq_none {w : Waiting κ ω} (h : w.ticket? = none) : w.claim? = none := by
  rw [← map_fst_claim?, Option.map_eq_none_iff] at h
  exact h

/-- A wait with a ticket is that of a callback or of a future. -/
theorem claim?_of_ticket? {w : Waiting κ ω} {t : Nat} (h : w.ticket? = some t) :
    ∃ k, w.claim? = some (t, k) := by
  rw [← map_fst_claim?, Option.map_eq_some_iff] at h
  obtain ⟨⟨u, k⟩, hclaim, rfl⟩ := h
  exact ⟨k, hclaim⟩

end Waiting

namespace Queue

@[simp] theorem claim?_notify (q : Queue α κ ω) :
    q.notify.2.waiting.claim? = q.waiting.claim? := by
  unfold notify; split
  · split <;> simp_all [Waiting.claim?]
  · rfl

@[simp] theorem claim?_push (q : Queue α κ ω) (a : α) :
    (q.push a).2.waiting.claim? = q.waiting.claim? := by
  simp [push]

@[simp] theorem claim?_stop (q : Queue α κ ω) : q.stop.2.waiting.claim? = q.waiting.claim? := by
  simp [stop]

end Queue

/-- What becomes of the wait on a queue in an operation with this turn. -/
inductive Turns (old new : Queue α κ ω) : Option (Turn α κ) → Prop
  | rests (wait : new.waiting.claim? = old.waiting.claim?)
      (next : new.nextTicket = old.nextTicket) : Turns old new none
  | begins {k} (free : old.waiting.claim? = none)
      (wait : new.waiting.claim? = some (old.nextTicket, k))
      (next : new.nextTicket = old.nextTicket + 1) : Turns old new (some (.began old.nextTicket k))
  | serves {t k d} (wait : old.waiting.claim? = some (t, k)) (free : new.waiting.claim? = none)
      (next : new.nextTicket = old.nextTicket) : Turns old new (some (.served t k d))
  | withdraws {t k} (wait : old.waiting.claim? = some (t, k)) (free : new.waiting.claim? = none)
      (next : new.nextTicket = old.nextTicket) : Turns old new (some (.withdrawn t))

theorem Turns.refl (q : Queue α κ ω) : Turns q q none :=
  .rests rfl rfl

namespace Exchange

variable {x : Exchange α κ ω}

/-! ### The turns of a run -/

/-- The ticket that an operation gives out on a queue. -/
def began? (x : Exchange α κ ω) (q : Nat) : Op α κ ω → Option (Turn α κ)
  | .asyncPop h k =>
    if x.handles.get? h = some q then (x.asyncPop? q k).map fun r => .began r.1 (some k) else none
  | .pop h id =>
    if x.handles.get? h = some q then
      (x.pop? id q).bind fun y => (y.pops.get? id).bind fun p => p.ticket.map (.began · none)
    else none
  | _ => none

/-- The callback that an operation hands out, and what it is given. -/
def invoked? (x : Exchange α κ ω) : Op α κ ω → Option (κ × Delivery α)
  | .runJob => x.nextJob?.bind (·.1)
  | _ => none

/-- The wait on a queue that an operation serves. -/
def served? (x : Exchange α κ ω) (q : Nat) (op : Op α κ ω) : Option (Turn α κ) :=
  (x.given? q op).map fun g => .served g.1 ((x.invoked? op).map (·.1)) g.2

/-- The wait on a queue that ends if a future goes away. -/
def abandoned? (x : Exchange α κ ω) (q : Nat) (p : Pop) : Option (Turn α κ) :=
  if p.queue = q ∧ p.ticket = (x.queue q).waiting.ticket? then p.ticket.map .withdrawn else none

/-- The wait on a queue that an operation withdraws. -/
def withdrawn? (x : Exchange α κ ω) (q : Nat) : Op α κ ω → Option (Turn α κ)
  | .withdraw h t =>
    if x.handles.get? h = some q ∧ (x.withdraw q t).1 = true then some (.withdrawn t) else none
  | .dropPop id => (x.pops.get? id).bind (x.abandoned? q)
  | .pop h id =>
    -- a future that is stored takes the place of another
    ((x.handles.get? h).bind (x.pop? id)).bind fun _ => (x.pops.get? id).bind (x.abandoned? q)
  | _ => none

/-- What an operation does to the wait on a queue. -/
def turn? (x : Exchange α κ ω) (q : Nat) (op : Op α κ ω) : Option (Turn α κ) :=
  (x.began? q op).or ((x.served? q op).or (x.withdrawn? q op))

/-- All that happens to the waits on a queue in a run. -/
def turns (x : Exchange α κ ω) (q : Nat) (ops : List (Op α κ ω)) : List (Turn α κ) :=
  seen step (fun x op => x.turn? q op) x ops

/-! ### Pushing, stopping and moving handles -/

theorem turns_of_movesHandle (hx : IsValid x) (q : Nat) {op : Op α κ ω}
    (hop : op.movesHandle = true) : Turns (x.queue q) ((x.step op).queue q) none := by
  rw [queue_of_movesHandle hx q hop]
  split
  · exact .rests (Queue.claim?_stop _) (Queue.nextTicket_stop _)
  · exact .refl _

theorem turns_via_commit (hx : IsValid x) (q : Nat) (h : Int)
    {f : Queue α κ ω → Option (Notice ω) × Queue α κ ω}
    (hf : ∀ r, Turns r (f r).2 none) :
    Turns (x.queue q) ((x.via h fun p => (x.commit p (f (x.queue p))).2).queue q) none := by
  rw [queue_via_commit hx q h f]
  split
  · exact hf _
  · exact .refl _

/-! ### Waiting -/

theorem asyncPop?_eq_none_iff {q : Nat} {k : κ} :
    x.asyncPop? q k = none ↔ (x.queue q).isWaiting = true := by
  rw [asyncPop?, Option.map_eq_none_iff, Queue.wait?_eq_none_iff]

theorem pop?_eq_none_iff {q : Nat} {id : Int} :
    x.pop? id q = none ↔ (x.queue q).isWaiting = true := by
  rw [pop?, Option.map_eq_none_iff, Queue.wait?_eq_none_iff]

/-- What was done to a queue behind a handle shows there, and on no other queue. -/
theorem queue_commit_behind (hx : IsValid x) {h : Int} {p : Nat} (hp : x.handles.get? h = some p)
    (r : Option (Notice ω) × Queue α κ ω) (q : Nat) :
    (x.commit p r).2.queue q = if q = p then r.2 else x.queue q := by
  rw [queue_commit, queue_setQueue x p q _ (hx.made p (Table.mem_values_of_get? hp))]

theorem turns_asyncPop (hx : IsValid x) (q : Nat) (h : Int) (k : κ) :
    Turns (x.queue q) ((x.step (.asyncPop h k)).queue q) (x.turn? q (.asyncPop h k)) := by
  have hturn : x.turn? q (.asyncPop h k) = x.began? q (.asyncPop h k) := Option.or_none
  rw [hturn]
  simp only [step, via, began?]
  cases hp : x.handles.get? h with
  | none => exact .refl _
  | some p =>
    dsimp only
    unfold asyncPop?
    by_cases hq : q = p
    · subst hq
      rw [if_pos rfl]
      cases hw : (x.queue q).wait? (.callback · k) with
      | none => exact .refl _
      | some r =>
        obtain ⟨t, notice, new⟩ := r
        obtain ⟨hidle, -⟩ := Queue.of_wait? (fun _ => rfl) hw
        obtain ⟨rfl, hwait, hnext, -⟩ := Queue.waiting_wait? (fun _ => rfl) hw
        show Turns _ ((x.commit q (notice, new)).2.queue q) _
        rw [queue_commit_behind hx hp, if_pos rfl]
        refine .begins (Waiting.claim?_eq_none hidle) ?_ hnext
        rw [hwait]
        rfl
    · rw [if_neg (fun hs => hq (Option.some.inj hs).symm)]
      cases (x.queue p).wait? (.callback · k) with
      | none => exact .refl _
      | some r =>
        show Turns _ ((x.commit p r.2).2.queue q) none
        rw [queue_commit_behind hx hp, if_neg hq]
        exact .refl _

/-! ### Futures -/

/-- A future that goes away withdraws its wait if that is still in progress. -/
theorem turns_releasePop (x : Exchange α κ ω) (p : Pop) (q : Nat) :
    Turns (x.queue q) ((x.releasePop p).queue q) (x.abandoned? q p) := by
  unfold abandoned?
  by_cases hwaits : p.queue = q ∧ p.ticket = (x.queue q).waiting.ticket?
  · rw [if_pos hwaits]
    obtain ⟨rfl, hticket⟩ := hwaits
    unfold releasePop
    cases ht : p.ticket with
    | none => exact .refl _
    | some t =>
      rw [ht] at hticket
      have hmade := lt_length_of_ticket hticket.symm
      obtain ⟨k, hclaim⟩ := Waiting.claim?_of_ticket? hticket.symm
      dsimp only
      rw [queue_setQueue x p.queue p.queue _ hmade, if_pos rfl, Queue.withdraw, Queue.withdraw?,
        if_pos hticket.symm]
      exact .withdraws hclaim rfl rfl
  · rw [if_neg hwaits]
    rcases queue_releasePop_cases x p q with heq | ⟨t, rfl, ht, -⟩
    · rw [heq]
      exact .refl _
    · exact absurd ⟨rfl, ht.symm⟩ hwaits

/-- A future that is made is stored with the next ticket of its queue. -/
theorem of_pop? {id : Int} {p : Nat} {y : Exchange α κ ω} (h : x.pop? id p = some y) :
    ∃ notice new, (x.queue p).wait? (.future · none)
      = some ((x.queue p).nextTicket, notice, new) ∧
      y = (x.commit p (notice, new)).2.storePop id ⟨p, some (x.queue p).nextTicket⟩ := by
  unfold pop? at h
  rw [Option.map_eq_some_iff] at h
  obtain ⟨⟨t, notice, new⟩, hw, hy⟩ := h
  obtain ⟨rfl, -⟩ := Queue.waiting_wait? (fun _ => rfl) hw
  exact ⟨notice, new, hw, hy.symm⟩

theorem pops_storePop (x : Exchange α κ ω) (id : Int) (p : Pop) :
    (x.storePop id p).pops = x.pops.put id p := by
  unfold storePop
  dsimp only
  split
  · rfl
  · rw [pops_releasePop]

theorem queue_storePop (x : Exchange α κ ω) (id : Int) (p : Pop) (q : Nat) :
    (x.storePop id p).queue q = ((x.pops.get? id).elim x x.releasePop).queue q := by
  unfold storePop releasePop
  dsimp only
  cases x.pops.get? id with
  | none => rfl
  | some old =>
    dsimp only [Option.elim]
    cases old.ticket with
    | none => rfl
    | some t => rfl

theorem turns_pop (hx : IsValid x) (hi : Issued x) (q : Nat) (h id : Int) :
    Turns (x.queue q) ((x.step (.pop h id)).queue q) (x.turn? q (.pop h id)) := by
  have hturn : x.turn? q (.pop h id) = (x.began? q (.pop h id)).or (x.withdrawn? q (.pop h id)) :=
    rfl
  rw [hturn]
  simp only [step, via, began?, withdrawn?]
  cases hp : x.handles.get? h with
  | none => exact .refl _
  | some p =>
    dsimp only [Option.bind_some]
    cases hpop : x.pop? id p with
    | none =>
      by_cases hq : q = p
      · subst hq
        rw [if_pos rfl, hpop]
        exact .refl _
      · rw [if_neg (fun hs => hq (Option.some.inj hs).symm)]
        exact .refl _
    | some y =>
      obtain ⟨notice, new, hw, rfl⟩ := of_pop? hpop
      have hqueue := queue_commit_behind hx hp (notice, new) q
      have hpops : (x.commit p (notice, new)).2.pops = x.pops := pops_commit _ _ _
      rw [Option.getD_some, queue_storePop, hpops]
      by_cases hq : q = p
      · subst hq
        obtain ⟨hidle, -⟩ := Queue.of_wait? (fun _ => rfl) hw
        obtain ⟨-, hwait, hnext, -⟩ := Queue.waiting_wait? (fun _ => rfl) hw
        rw [if_pos rfl] at hqueue
        rw [if_pos rfl, hpop, Option.bind_some, pops_storePop, Table.get?_put_self]
        -- the future that is replaced has an older ticket, so it does not end the new wait
        have hkept : ((x.pops.get? id).elim (x.commit q (notice, new)).2
            (x.commit q (notice, new)).2.releasePop).queue q = new := by
          cases hold : x.pops.get? id with
          | none => exact hqueue
          | some old =>
            rcases queue_releasePop_cases (x.commit q (notice, new)).2 old q
              with heq | ⟨t, rfl, ht, -⟩
            · exact heq.trans hqueue
            · have hlt := hi.given id q t hold
              rw [hqueue, hwait] at ht
              cases ht
              omega
        rw [hkept]
        refine .begins (Waiting.claim?_eq_none hidle) ?_ hnext
        rw [hwait]
        rfl
      · rw [if_neg hq] at hqueue
        rw [if_neg (fun hs => hq (Option.some.inj hs).symm), Option.none_or, ← hqueue]
        cases x.pops.get? id with
        | none => exact .refl _
        | some old =>
          have hgone := turns_releasePop (x.commit p (notice, new)).2 old q
          rw [abandoned?, hqueue] at hgone
          exact hqueue ▸ hgone

theorem turns_dropPop (q : Nat) (id : Int) :
    Turns (x.queue q) ((x.step (.dropPop id)).queue q) (x.turn? q (.dropPop id)) := by
  have hturn : x.turn? q (.dropPop id) = (x.pops.get? id).bind (x.abandoned? q) := rfl
  rw [hturn]
  simp only [step, dropPop]
  cases x.pops.get? id with
  | none => exact .refl _
  | some p => exact turns_releasePop { x with pops := x.pops.erase id } p q

theorem turns_poll (hi : Issued x) (q : Nat) (id : Int) (waker : ω) :
    Turns (x.queue q) ((x.step (.poll id waker)).queue q) (x.turn? q (.poll id waker)) := by
  have hturn : x.turn? q (.poll id waker)
      = (x.given? q (.poll id waker)).map fun g => .served g.1 none g.2 := Option.or_none
  rw [hturn]
  by_cases hwaits : ∃ p t, x.pops.get? id = some ⟨p, some t⟩
  · obtain ⟨p, t, hpop⟩ := hwaits
    simp only [step, given?, hpop]
    rw [queue_pollPop, polled_pollPop]
    have hfuture : ∀ k, (x.queue p).waiting ≠ .callback t k := fun k => hi.future id p t k hpop
    obtain ⟨-, hpoll⟩ | ⟨hticket, d, r, hd, hpoll⟩ | ⟨hticket, hnone, -⟩ :=
      (x.queue p).poll_cases t waker
    · rw [hpoll, queue_setQueue_self]
      exact .refl _
    · obtain ⟨o, hwait⟩ := Waiting.eq_future hticket hfuture
      rw [hpoll, queue_setQueue x p q _ (lt_length_of_ticket hticket)]
      dsimp only
      by_cases hq : p = q
      · subst hq
        rw [if_pos rfl, if_pos rfl]
        have hnext := Queue.nextTicket_of_nextResult? hd
        refine .serves ?_ rfl hnext
        rw [hwait]
        rfl
      · rw [if_neg (fun h => hq h.symm), if_neg hq]
        exact .refl _
    · obtain ⟨o, hwait⟩ := Waiting.eq_future hticket hfuture
      rw [Queue.poll_of_future waker hwait hnone]
      refine setQueue_rel (R := fun r s => Turns r s none) .refl x p q (.rests ?_ rfl)
      rw [hwait]
      rfl
  · rw [step_poll_of_not_waits hwaits, given?_poll_of_not_waits hwaits]
    exact .refl _

/-! ### Withdrawing and giving -/

theorem turns_withdraw (hx : IsValid x) (q : Nat) (h : Int) (t : Nat) :
    Turns (x.queue q) ((x.step (.withdraw h t)).queue q) (x.turn? q (.withdraw h t)) := by
  have hturn : x.turn? q (.withdraw h t) = x.withdrawn? q (.withdraw h t) := rfl
  rw [hturn]
  simp only [step, via, withdrawn?]
  cases hp : x.handles.get? h with
  | none => exact .refl _
  | some p =>
    have hmade := hx.made p (Table.mem_values_of_get? hp)
    unfold withdraw Queue.withdraw?
    by_cases hq : p = q
    · subst hq
      by_cases ht : (x.queue p).waiting.ticket? = some t
      · obtain ⟨k, hclaim⟩ := Waiting.claim?_of_ticket? ht
        simp only [if_pos ht]
        rw [queue_setQueue x p p _ hmade, if_pos rfl]
        exact .withdraws hclaim rfl rfl
      · simp only [if_neg ht]
        exact .refl _
    · rw [if_neg (fun hs => hq (Option.some.inj hs.1))]
      dsimp only
      split
      · exact .refl _
      · rw [queue_setQueue x p q _ hmade, if_neg (fun h => hq h.symm)]
        exact .refl _

theorem turns_runJob (q : Nat) :
    Turns (x.queue q) ((x.step .runJob).queue q) (x.turn? q .runJob) := by
  have hturn : x.turn? q .runJob
      = (x.given? q .runJob).map fun g => .served g.1 ((x.invoked? .runJob).map (·.1)) g.2 :=
    Option.or_none
  rw [hturn]
  simp only [step, given?, invoked?, nextJob?]
  cases hj : x.jobs.next? with
  | none => exact .refl _
  | some job =>
    obtain ⟨p, jobs⟩ := job
    have hqueue : ({ x with jobs := jobs } : Exchange α κ ω).queue p = x.queue p := rfl
    dsimp only [Option.map_some]
    rw [hqueue]
    cases hk : (x.queue p).takeCallback? with
    | none => exact .refl _
    | some taken =>
      obtain ⟨handler, d, new⟩ := taken
      obtain ⟨t, r, hw, hd, rfl⟩ := Queue.of_takeCallback? hk
      have hticket : (x.queue p).waiting.ticket? = some t := by rw [hw]; rfl
      have hnext := Queue.nextTicket_of_nextResult? hd
      dsimp only
      rw [queue_setQueue { x with jobs := jobs } p q _ (lt_length_of_ticket (x := x) hticket)]
      by_cases hq : p = q
      · subst hq
        rw [if_pos rfl, if_pos rfl, hticket]
        refine .serves ?_ rfl hnext
        rw [hw]
        rfl
      · rw [if_neg (fun h => hq h.symm), if_neg (fun hs => hq (Option.some.inj hs))]
        exact .refl _

/-! ### Every operation -/

/-- **Every operation does to the wait on every queue what its turn says.** -/
theorem turns_step (hx : IsValid x) (hi : Issued x) (q : Nat) (op : Op α κ ω) :
    Turns (x.queue q) ((x.step op).queue q) (x.turn? q op) := by
  cases op with
  | create h => exact turns_of_movesHandle hx q rfl
  | clone h target => exact turns_of_movesHandle hx q rfl
  | drop h => exact turns_of_movesHandle hx q rfl
  | push h a =>
    exact turns_via_commit hx q h fun r =>
      .rests (Queue.claim?_push r a) (Queue.nextTicket_push r a)
  | stop h =>
    exact turns_via_commit hx q h fun r => .rests (Queue.claim?_stop r) (Queue.nextTicket_stop r)
  | asyncPop h k => exact turns_asyncPop hx q h k
  | pop h id => exact turns_pop hx hi q h id
  | poll id waker => exact turns_poll hi q id waker
  | dropPop id => exact turns_dropPop q id
  | withdraw h t => exact turns_withdraw hx q h t
  | runJob => exact turns_runJob q
  | executor jobs => exact .refl _

end Exchange

/-! ### Tickets and fates -/

theorem begun_concat (h : List (Turn α κ)) (c : Option (Turn α κ)) :
    begun (h ++ c.toList) = begun h ++ (c.bind Turn.begun?).toList := by
  rw [begun, begun, List.filterMap_append]
  cases c with
  | none => rfl
  | some c => cases c <;> rfl

theorem ended_concat (h : List (Turn α κ)) (c : Option (Turn α κ)) :
    ended (h ++ c.toList) = ended h ++ (c.bind Turn.ended?).toList := by
  rw [ended, ended, List.filterMap_append]
  cases c with
  | none => rfl
  | some c => cases c <;> rfl

theorem mem_begun {h : List (Turn α κ)} {t : Nat} {k : Option κ} (hmem : .began t k ∈ h) :
    t ∈ begun h :=
  List.mem_filterMap.mpr ⟨_, hmem, rfl⟩

theorem mem_ended_of_served {h : List (Turn α κ)} {t : Nat} {k : Option κ} {d : Delivery α}
    (hmem : .served t k d ∈ h) : t ∈ ended h :=
  List.mem_filterMap.mpr ⟨_, hmem, rfl⟩

theorem mem_ended_of_withdrawn {h : List (Turn α κ)} {t : Nat} (hmem : .withdrawn t ∈ h) :
    t ∈ ended h :=
  List.mem_filterMap.mpr ⟨_, hmem, rfl⟩

/-- What is read off two entries of a history is different, if nothing is read twice. -/
theorem eq_of_nodup_filterMap {β γ : Type} {f : β → Option γ} {l : List β}
    (hl : (l.filterMap f).Nodup) {a b : β} (ha : a ∈ l) (hb : b ∈ l) {c : γ}
    (hac : f a = some c) (hbc : f b = some c) : a = b := by
  rw [List.Nodup, List.pairwise_filterMap] at hl
  have : Std.Symm fun a b => ∀ c, f a = some c → ∀ d, f b = some d → c ≠ d :=
    ⟨fun _ _ h d hd c hc heq => h c hc d hd heq.symm⟩
  by_contra hne
  exact hl.forall ha hb hne c hac c hbc rfl

/-- The history of the waits on a queue accounts for the tickets that the queue gave out. -/
structure Numbers (h : List (Turn α κ)) (q : Queue α κ ω) : Prop where
  given : begun h = List.range q.nextTicket
  /-- All waits ended in the order in which they began, but for the one in progress. -/
  settled : ended h ++ q.waiting.ticket?.toList = List.range q.nextTicket
  holder : ∀ t k, q.waiting.claim? = some (t, k) → .began t k ∈ h
  own : ∀ t k d, .served t k d ∈ h → .began t k ∈ h

namespace Numbers

variable {h : List (Turn α κ)} {q old new : Queue α κ ω}

theorem fresh : Numbers ([] : List (Turn α κ)) (.fresh : Queue α κ ω) :=
  ⟨rfl, rfl, nofun, nofun⟩

/-- The wait in progress ends, and the tickets that were given out stay the same. -/
theorem ends {c : Turn α κ} {t : Nat} {k : Option κ} (hn : Numbers h old)
    (begun : c.begun? = none) (ended : c.ended? = some t) (wait : old.waiting.claim? = some (t, k))
    (free : new.waiting.claim? = none) (next : new.nextTicket = old.nextTicket)
    (own : ∀ u l d, c = .served u l d → .began u l ∈ h) : Numbers (h ++ [c]) new := by
  have hsettled := hn.settled
  refine ⟨?_, ?_, ?_, ?_⟩
  · rw [← Option.toList_some, begun_concat, Option.bind_some, begun, next, hn.given]
    simp
  · rw [← Waiting.map_fst_claim?, wait] at hsettled
    rw [← Option.toList_some, ended_concat, Option.bind_some, ended, next, ← hsettled,
      ← Waiting.map_fst_claim?, free]
    simp
  · intro u l hclaim
    rw [free] at hclaim
    cases hclaim
  · intro u l d hserved
    refine List.mem_append_left _ ?_
    rcases List.mem_append.mp hserved with hold | hnew
    · exact hn.own u l d hold
    · exact own u l d (List.mem_singleton.mp hnew).symm

theorem next {c : Option (Turn α κ)} (hn : Numbers h old) (ht : Turns old new c) :
    Numbers (h ++ c.toList) new := by
  have hbegun := hn.given
  have hended := hn.settled
  cases ht with
  | rests wait next =>
    refine ⟨?_, ?_, ?_, ?_⟩
    · rw [begun_concat, next, hbegun]
      simp
    · rw [ended_concat, next, ← hended, ← Waiting.map_fst_claim?,
        ← Waiting.map_fst_claim?, wait]
      simp
    · intro t k hclaim
      rw [wait] at hclaim
      simpa using hn.holder t k hclaim
    · simpa using hn.own
  | @begins k free wait next =>
    refine ⟨?_, ?_, ?_, ?_⟩
    · rw [begun_concat, next, List.range_succ, hbegun]
      rfl
    · rw [← Waiting.map_fst_claim?, free] at hended
      rw [ended_concat, next, List.range_succ, ← hended, ← Waiting.map_fst_claim?, wait]
      simp [Turn.ended?]
    · intro t l hclaim
      rw [wait] at hclaim
      cases hclaim
      simp
    · intro t l d hserved
      have hold : .served t l d ∈ h := by simpa using hserved
      exact List.mem_append_left _ (hn.own t l d hold)
  | @serves t k d wait free next =>
    refine hn.ends rfl rfl wait free next ?_
    rintro u l e ⟨⟩
    exact hn.holder t k wait
  | @withdraws t k wait free next =>
    refine hn.ends rfl rfl wait free next ?_
    rintro u l e ⟨⟩

/-- The wait in progress is the one that is outstanding. -/
theorem isOutstanding_iff (hn : Numbers h q) (t : Nat) :
    IsOutstanding h t ↔ q.waiting.ticket? = some t := by
  have hnodup : (ended h ++ q.waiting.ticket?.toList).Nodup := by
    rw [hn.settled]
    exact List.nodup_range
  rw [IsOutstanding, hn.given, ← hn.settled, List.mem_append, Option.mem_toList]
  refine ⟨?_, ?_⟩
  · rintro ⟨hended | hticket, hnot⟩
    · exact absurd hended hnot
    · exact hticket
  · intro hticket
    refine ⟨.inr hticket, ?_⟩
    intro hended
    exact (List.nodup_append.mp hnodup).2.2 t hended t (Option.mem_toList.mpr hticket) rfl

theorem isWaiting_iff (hn : Numbers h q) : q.isWaiting = true ↔ ∃ t, IsOutstanding h t := by
  rw [Queue.isWaiting, Option.isSome_iff_exists]
  exact exists_congr fun t => (hn.isOutstanding_iff t).symm

end Numbers

namespace Exchange

variable {x : Exchange α κ ω} {q t : Nat} {op : Op α κ ω} {d : Delivery α}

/-! ### Who is served -/

theorem served?_of_turn? {k : Option κ} (h : x.turn? q op = some (.served t k d)) :
    x.served? q op = some (.served t k d) := by
  rw [turn?, Option.or_eq_some_iff, Option.or_eq_some_iff] at h
  obtain hbegan | ⟨-, hserved | ⟨-, hwithdrawn⟩⟩ := h
  · unfold began? at hbegan
    split at hbegan
    · split at hbegan
      · rw [Option.map_eq_some_iff] at hbegan
        obtain ⟨r, -, heq⟩ := hbegan
        cases heq
      · cases hbegan
    · split at hbegan
      · simp only [Option.bind_eq_some_iff, Option.map_eq_some_iff] at hbegan
        obtain ⟨y, -, p, -, u, -, heq⟩ := hbegan
        cases heq
      · cases hbegan
    · cases hbegan
  · exact hserved
  · -- what goes away is withdrawn
    have habandoned : ∀ p, x.abandoned? q p ≠ some (.served t k d) := by
      intro p heq
      unfold abandoned? at heq
      split at heq
      · rw [Option.map_eq_some_iff] at heq
        obtain ⟨u, -, heq⟩ := heq
        cases heq
      · cases heq
    unfold withdrawn? at hwithdrawn
    split at hwithdrawn
    · split at hwithdrawn
      · cases hwithdrawn
      · cases hwithdrawn
    · rw [Option.bind_eq_some_iff] at hwithdrawn
      obtain ⟨p, -, heq⟩ := hwithdrawn
      exact absurd heq (habandoned p)
    · rw [Option.bind_eq_some_iff] at hwithdrawn
      obtain ⟨y, -, hwithdrawn⟩ := hwithdrawn
      rw [Option.bind_eq_some_iff] at hwithdrawn
      obtain ⟨p, -, heq⟩ := hwithdrawn
      exact absurd heq (habandoned p)
    · cases hwithdrawn

/-- A wait is served by the job that calls its callback, or by a poll of its future. -/
theorem of_served {k : Option κ} (h : x.turn? q op = some (.served t k d)) :
    (op = .runJob ∧ ∃ handler, k = some handler ∧ x.invoked? op = some (handler, d)) ∨
      (k = none ∧ ∃ id waker, op = .poll id waker ∧ x.pops.get? id = some ⟨q, some t⟩ ∧
        (x.pollPop id q t waker).1 = .delivered d) := by
  have hserved := served?_of_turn? h
  rw [served?, Option.map_eq_some_iff] at hserved
  obtain ⟨⟨u, e⟩, hgiven, heq⟩ := hserved
  cases heq
  unfold given? at hgiven
  split at hgiven
  · split at hgiven
    · next handler e' y hjob =>
      have hinvoked : x.invoked? .runJob = some (handler, e') := by rw [invoked?, hjob]; rfl
      split at hgiven
      · rw [Option.map_eq_some_iff] at hgiven
        obtain ⟨v, -, heq⟩ := hgiven
        cases heq
        refine .inl ⟨rfl, handler, ?_, hinvoked⟩
        rw [hinvoked]
        rfl
      · cases hgiven
    · cases hgiven
  · next id waker =>
    split at hgiven
    · next p v hpop =>
      split at hgiven
      · next e' hpolled =>
        split at hgiven
        · next hq =>
          cases hgiven
          subst hq
          exact .inr ⟨rfl, id, waker, rfl, hpop, hpolled⟩
        · cases hgiven
      · cases hgiven
    · cases hgiven
  · cases hgiven

/-- A wait is withdrawn through a handle, or with its future, which is dropped or replaced. -/
theorem of_withdrawn {c : Turn α κ} (h : x.withdrawn? q op = some c) :
    (∃ n u, op = .withdraw n u ∧ x.handles.get? n = some q) ∨
      ∃ id u, c = .withdrawn u ∧ x.pops.get? id = some ⟨q, some u⟩ ∧
        (x.queue q).waiting.ticket? = some u ∧
        (op = .dropPop id ∨ ∃ n p y, op = .pop n id ∧ x.handles.get? n = some p ∧
          x.pop? id p = some y) := by
  have habandoned : ∀ id, (x.pops.get? id).bind (x.abandoned? q) = some c →
      ∃ u, c = .withdrawn u ∧ x.pops.get? id = some ⟨q, some u⟩ ∧
        (x.queue q).waiting.ticket? = some u := by
    intro id hgone
    rw [Option.bind_eq_some_iff] at hgone
    obtain ⟨⟨p, ticket⟩, hpop, hgone⟩ := hgone
    unfold abandoned? at hgone
    split at hgone
    · next hwaits =>
      obtain ⟨hp, hticket⟩ := hwaits
      rw [Option.map_eq_some_iff] at hgone
      obtain ⟨u, hu, rfl⟩ := hgone
      dsimp only at hp hticket hu
      subst hp hu
      exact ⟨u, rfl, hpop, hticket.symm⟩
    · cases hgone
  unfold withdrawn? at h
  split at h
  · next n u =>
    split at h
    · next hvia => exact .inl ⟨n, u, rfl, hvia.1⟩
    · cases h
  · next id =>
    obtain ⟨u, hc, hpop, hticket⟩ := habandoned id h
    exact .inr ⟨id, u, hc, hpop, hticket, .inl rfl⟩
  · next n id =>
    rw [Option.bind_eq_some_iff] at h
    obtain ⟨y, hmade, hgone⟩ := h
    rw [Option.bind_eq_some_iff] at hmade
    obtain ⟨p, hp, hmade⟩ := hmade
    obtain ⟨u, hc, hpop, hticket⟩ := habandoned id hgone
    exact .inr ⟨id, u, hc, hpop, hticket, .inr ⟨n, p, y, rfl, hp, hmade⟩⟩
  · cases h

/-- Whatever callback is handed out, its wait is served. -/
theorem served_of_invoked {k : κ} (h : x.invoked? op = some (k, d)) :
    ∃ p u, x.turn? p op = some (.served u (some k) d) := by
  cases op with
  | runJob =>
    have hturn : ∀ p, x.turn? p .runJob
        = (x.given? p .runJob).map fun g => .served g.1 ((x.invoked? .runJob).map (·.1)) g.2 :=
      fun _ => Option.or_none
    cases hnext : x.jobs.next? with
    | none =>
      rw [invoked?, nextJob?, hnext] at h
      cases h
    | some job =>
      obtain ⟨p, jobs⟩ := job
      have hqueue : ({ x with jobs := jobs } : Exchange α κ ω).queue p = x.queue p := rfl
      refine ⟨p, ?_⟩
      rw [hturn, h]
      rw [invoked?, nextJob?, hnext, Option.map_some] at h
      dsimp only at h
      rw [hqueue] at h
      cases hk : (x.queue p).takeCallback? with
      | none =>
        rw [hk] at h
        cases h
      | some taken =>
        obtain ⟨handler, e, new⟩ := taken
        obtain ⟨u, r, hw, -, rfl⟩ := Queue.of_takeCallback? hk
        rw [hk] at h
        cases h
        refine ⟨u, ?_⟩
        simp only [given?, nextJob?, hnext, Option.map_some, hqueue, hk, if_true, hw,
          Waiting.ticket?]
  | _ => cases h

/-- A future that resolves has no ticket any more. -/
theorem resolved_of_poll {id : Int} {waker : ω} (h : (x.pollPop id q t waker).1 ≠ .pending) :
    (x.pollPop id q t waker).2.pops.get? id = some ⟨q, none⟩ := by
  rw [polled_pollPop] at h
  unfold pollPop
  dsimp only
  split
  · next hpending => exact absurd hpending h
  · exact Table.get?_put_self _ _ _

/-! ### Futures that have not resolved -/

/-- The wait with a ticket is a future's, and nothing was given to it. -/
def IsUnserved (h : List (Turn α κ)) (t : Nat) : Prop :=
  .began t none ∈ h ∧ ∀ k d, .served t k d ∉ h

/-- A future that is stored afterwards without being resolved is not the one that was served. -/
theorem not_served_of_stored (hi : Issued x) {id : Int}
    (hpop : x.pops.get? id = some ⟨q, some t⟩)
    (hafter : (x.step op).pops.get? id = some ⟨q, some t⟩) (k : Option κ) :
    x.turn? q op ≠ some (.served t k d) := by
  intro hturn
  rcases of_served hturn with ⟨rfl, handler, rfl, -⟩ |
    ⟨-, other, waker, rfl, hother, hpolled⟩
  · have hserves := turns_runJob (x := x) q
    rw [hturn] at hserves
    cases hserves with
    | serves wait _ _ =>
      cases hw : (x.queue q).waiting with
      | idle => rw [hw] at wait; cases wait
      | callback u l =>
        rw [hw] at wait
        cases wait
        exact hi.future id q t handler hpop hw
      | future u o => rw [hw] at wait; cases wait
  · have hsame := hi.alone id other q t hpop hother
    subst hsame
    have hpending : (x.pollPop id q t waker).1 ≠ .pending := by
      rw [hpolled]
      nofun
    have hresolved := resolved_of_poll hpending
    simp only [step, hpop] at hafter
    rw [hresolved] at hafter
    cases hafter

theorem unserved_step (hx : IsValid x) (hi : Issued x) {h : List (Turn α κ)}
    (hn : Numbers h (x.queue q))
    (hu : ∀ id t, x.pops.get? id = some ⟨q, some t⟩ → IsUnserved h t) {id : Int}
    (hpop : (x.step op).pops.get? id = some ⟨q, some t⟩) :
    IsUnserved (h ++ (x.turn? q op).toList) t := by
  have hturns := turns_step hx hi q op
  rcases stored_step hx hi hpop with hold | ⟨n, rfl, rfl, hregisters⟩
  · obtain ⟨hbegan, hserved⟩ := hu id t hold
    refine ⟨List.mem_append_left _ hbegan, ?_⟩
    intro k d hmem
    rcases List.mem_append.mp hmem with hmem | hmem
    · exact hserved k d hmem
    · exact not_served_of_stored hi hold hpop k (Option.mem_toList.mp hmem)
  · -- the future was made in this operation, so its wait began in it
    have hbegan : x.turn? q (.pop n id) = some (.began (x.queue q).nextTicket none) := by
      have hnew := hn.next hturns
      have hclaim : ((x.step (.pop n id)).queue q).waiting.claim?
          = some ((x.queue q).nextTicket, none) := by
        rw [hregisters.wait]
        rfl
      have hmem := hnew.holder _ _ hclaim
      rcases List.mem_append.mp hmem with hold | hlast
      · have hrange := mem_begun hold
        rw [hn.given, List.mem_range] at hrange
        omega
      · exact Option.mem_toList.mp hlast
    rw [hbegan]
    refine ⟨by simp, ?_⟩
    intro k d hmem
    have hold : .served (x.queue q).nextTicket k d ∈ h := by simpa using hmem
    have hrange : (x.queue q).nextTicket ∈ List.range (x.queue q).nextTicket := by
      rw [← hn.settled]
      exact List.mem_append_left _ (mem_ended_of_served hold)
    rw [List.mem_range] at hrange
    omega

/-! ### Along every run -/

/-- What is known of the waits on a queue after a run. -/
structure Fares (x : Exchange α κ ω) (q : Nat) (h : List (Turn α κ)) : Prop where
  valid : IsValid x
  issued : Issued x
  numbers : Numbers h (x.queue q)
  unserved : ∀ id t, x.pops.get? id = some ⟨q, some t⟩ → IsUnserved h t

theorem fares_of_run (ops : List (Op α κ ω)) (q : Nat) :
    Fares (after {} ops) q (turns {} q ops) := by
  refine foldl_induction step (P := fun ops x => Fares x q (turns {} q ops)) ?_ ?_ ops
  · exact ⟨isValid_start, issued_start, .fresh, nofun⟩
  · intro ops op ⟨hx, hi, hn, hu⟩
    have hturns : turns {} q (ops ++ [op])
        = turns {} q ops ++ ((after {} ops).turn? q op).toList := seen_concat _ _ _ _ _
    rw [hturns]
    exact ⟨hx.step op, hi.step hx op, hn.next (turns_step hx hi q op),
      fun _ _ hpop => unserved_step hx hi hn hu hpop⟩

end Exchange

/--
Every wait has one fate.

The history `h` is all that happened to the waits on one queue.
-/
structure IsFated (h : List (Turn α κ)) : Prop where
  numbered : begun h = List.range (begun h).length
  /-- At most one wait did not end yet, the last. -/
  single : ∃ last : Option Nat, begun h = ended h ++ last.toList
  once : (ended h).Nodup
  /-- What is served is the callback or the future that began the wait. -/
  own : ∀ t k d, .served t k d ∈ h → .began t k ∈ h
  /-- No callback is called for a wait that was withdrawn, and no future is given anything for
  it. -/
  withdrawn : ∀ t k d, .withdrawn t ∈ h → .served t k d ∉ h

theorem Numbers.isFated {h : List (Turn α κ)} {q : Queue α κ ω} (hn : Numbers h q) :
    IsFated h := by
  have hall : begun h = ended h ++ q.waiting.ticket?.toList := by rw [hn.given, hn.settled]
  have hnodup : (ended h).Nodup := by
    have hrange : (ended h ++ q.waiting.ticket?.toList).Nodup := by
      rw [hn.settled]
      exact List.nodup_range
    exact hrange.of_append_left
  refine ⟨?_, ⟨_, hall⟩, hnodup, hn.own, ?_⟩
  · rw [hn.given, List.length_range]
  · intro t k d hwithdrawn hserved
    cases eq_of_nodup_filterMap hnodup hwithdrawn hserved rfl rfl

namespace Exchange

/-- What operations on a queue come to, by the history of its waits. -/
structure Heeds (x : Exchange α κ ω) (q : Nat) (h : List (Turn α κ)) : Prop where
  /-- A ticket withdraws its own wait while that is outstanding, and never another. -/
  withdraw : ∀ t, (IsOutstanding h t ∧
      x.withdraw q t = (true, x.setQueue q { x.queue q with waiting := .idle })) ∨
    (¬ IsOutstanding h t ∧ x.withdraw q t = (false, x))
  asyncPop : ∀ k, x.asyncPop? q k = none ↔ ∃ t, IsOutstanding h t
  pop : ∀ id, x.pop? id q = none ↔ ∃ t, IsOutstanding h t
  /-- Whatever callback is handed out, its wait is served. -/
  invoked : ∀ op k d, x.invoked? op = some (k, d) →
    ∃ p t, x.turn? p op = some (.served t (some k) d)
  /-- A wait with a callback is served by a job that calls it. -/
  callback : ∀ op t k d, x.turn? q op = some (.served t (some k) d) →
    IsOutstanding h t ∧ op = .runJob ∧ x.invoked? op = some (k, d)
  /-- A wait without one is served by a poll of its future, which resolves by it. -/
  future : ∀ op t d, x.turn? q op = some (.served t none d) → IsOutstanding h t ∧
    ∃ id waker, op = .poll id waker ∧ x.pops.get? id = some ⟨q, some t⟩ ∧
      (x.pollPop id q t waker).1 = .delivered d ∧ (x.step op).pops.get? id = some ⟨q, none⟩
  unresolved : ∀ id t, x.pops.get? id = some ⟨q, some t⟩ → IsUnserved h t
  /-- A future whose wait was withdrawn is told so and takes nothing. -/
  late : ∀ id t waker, x.pops.get? id = some ⟨q, some t⟩ → .withdrawn t ∈ h →
    (x.pollPop id q t waker).1 = .withdrawn ∧
      (∀ p, (x.step (.poll id waker)).queue p = x.queue p) ∧
      (x.step (.poll id waker)).pops.get? id = some ⟨q, none⟩

variable {x : Exchange α κ ω} {q : Nat} {h : List (Turn α κ)}

theorem Fares.heeds (hf : Fares x q h) : Heeds x q h := by
  have hn := hf.numbers
  have outstanding : ∀ {op t k d}, x.turn? q op = some (.served t k d) → IsOutstanding h t := by
    intro op t k d hturn
    have hserves := turns_step hf.valid hf.issued q op
    rw [hturn] at hserves
    cases hserves with
    | serves wait _ _ =>
      rw [hn.isOutstanding_iff, ← Waiting.map_fst_claim?, wait]
      rfl
  refine ⟨?_, ?_, ?_, fun _ _ _ => served_of_invoked, ?_, ?_, hf.unserved, ?_⟩
  · intro t
    rw [hn.isOutstanding_iff]
    unfold withdraw Queue.withdraw?
    by_cases ht : (x.queue q).waiting.ticket? = some t
    · exact .inl ⟨ht, by rw [if_pos ht]⟩
    · exact .inr ⟨ht, by rw [if_neg ht]⟩
  · intro k
    rw [asyncPop?_eq_none_iff, hn.isWaiting_iff]
  · intro id
    rw [pop?_eq_none_iff, hn.isWaiting_iff]
  · intro op t k d hturn
    rcases of_served hturn with ⟨hop, handler, heq, hinvoked⟩ | ⟨heq, -⟩
    · cases heq
      exact ⟨outstanding hturn, hop, hinvoked⟩
    · cases heq
  · intro op t d hturn
    rcases of_served hturn with ⟨-, handler, heq, -⟩ | ⟨-, id, waker, rfl, hpop, hpolled⟩
    · cases heq
    · refine ⟨outstanding hturn, id, waker, rfl, hpop, hpolled, ?_⟩
      simp only [step, hpop]
      exact resolved_of_poll (by simp [hpolled])
  · intro id t waker hpop hwithdrawn
    have hnot : (x.queue q).waiting.ticket? ≠ some t := by
      intro ht
      exact ((hn.isOutstanding_iff t).mpr ht).2 (mem_ended_of_withdrawn hwithdrawn)
    have hpolled : (x.pollPop id q t waker).1 = .withdrawn := by
      rw [polled_pollPop, Queue.poll, if_neg hnot]
    refine ⟨hpolled, ?_, ?_⟩
    · intro p
      simp only [step, hpop]
      rw [queue_pollPop, Queue.poll, if_neg hnot, queue_setQueue_self]
    · simp only [step, hpop]
      exact resolved_of_poll (by simp [hpolled])

end Exchange

/-! ### What a script is answered -/

/-- The step is refused as misuse exactly on a condition, and then it changes nothing. -/
def Refuses (m : Play α (Answer α)) (s : Scene (World α) (Event α)) (condition : Prop) : Prop :=
  ((m.start s).1 = .ok (.refused .misuse) ↔ condition) ∧
    ((m.start s).1 = .ok (.refused .misuse) → (m.start s).2 = s)

/-- What the steps of a script are answered on a queue, by the history of its waits. -/
structure TellsFate (w : World α) (q : Nat) (h : List (Turn α (Callback α))) : Prop where
  asyncPop : ∀ jobs inner events n name body, w.exchange.handles.get? n = some q →
    Refuses (perform jobs inner (.asyncPop n name body)) ⟨w, events⟩ (∃ t, IsOutstanding h t)
  pop : ∀ jobs inner events n id, w.exchange.handles.get? n = some q →
    Refuses (perform jobs inner (.pop n id)) ⟨w, events⟩ (∃ t, IsOutstanding h t)
  withdraw : ∀ jobs inner events n name t, w.exchange.handles.get? n = some q →
    w.granted.get? name = some t →
    ∃ b, ((perform jobs inner (.withdraw n name)).start ⟨w, events⟩).1 = .ok (.flag b) ∧
      (b = true ↔ IsOutstanding h t)
  poll : ∀ jobs inner events id waker t, w.exchange.pops.get? id = some ⟨q, some t⟩ →
    .withdrawn t ∈ h →
    ((perform jobs inner (.poll id waker)).start ⟨w, events⟩).1 = .ok (.refused .cancelled)
  /-- A job that hands out a callback performs its steps, once. -/
  job : ∀ inner events callback d, w.exchange.invoked? .runJob = some (callback, d) →
    (runJob inner).start ⟨w, events⟩
      = (do
          Play.emit (.called callback.name d (← Play.aside (inner callback.body)))
          return true : Play α Bool).start
            ⟨{ w with exchange := w.exchange.step .runJob }, events⟩

theorem tellsFate_of_heeds {w : World α} {q : Nat} {h : List (Turn α (Callback α))}
    (hh : w.exchange.Heeds q h) : TellsFate w q h := by
  refine ⟨?_, ?_, ?_, ?_, ?_⟩
  · intro jobs inner events n name body hq
    unfold Refuses
    rw [← hh.asyncPop ⟨name, body⟩]
    simp only [perform, withHandle, Play.start_bind, Play.start_look, hq, asking,
      Play.start_operate]
    cases w.exchange.asyncPop? q ⟨name, body⟩ with
    | none => simp
    | some r =>
      obtain ⟨t, accepted, y⟩ := r
      cases accepted with
      | false => simp [Play.panic]
      | true => simp only [Play.start_bind, Play.start_pure, Play.start_change, if_true]; simp
  · intro jobs inner events n id hq
    unfold Refuses
    rw [← hh.pop id]
    simp only [perform, withHandle, Play.start_bind, Play.start_look, hq, asking,
      Play.start_operate, Play.start_pure]
    cases w.exchange.pop? id q with
    | none => simp
    | some y => simp
  · intro jobs inner events n name t hq ht
    refine ⟨(w.exchange.withdraw q t).1, ?_, ?_⟩
    · simp only [perform, withHandle, Play.start_bind, Play.start_look, hq, ht, asking,
        Play.start_operate, Play.start_pure]
    · rcases hh.withdraw t with ⟨hout, heq⟩ | ⟨hout, heq⟩
      · simp [heq, hout]
      · simp [heq, hout]
  · intro jobs inner events id waker t hpop hwithdrawn
    have hlate := (hh.late id t waker hpop hwithdrawn).1
    simp only [perform, Play.start_bind, Play.start_look, hpop, asking, Play.start_operate,
      Play.start_pure, hlate, Answer.ofPolled]
  · intro inner events callback d hinvoked
    rw [Exchange.invoked?, Option.bind_eq_some_iff] at hinvoked
    obtain ⟨⟨job, y⟩, hnext, hjob⟩ := hinvoked
    cases hjob
    simp only [runJob, Play.start_bind, asking, Play.start_operate, hnext, Exchange.step]

/-! ### Steps that call nothing -/

open Dialogue.Play (IsSilent)

/-- The step has the executor run jobs. -/
def Step.runsJobs : Step α → Bool
  | .runOne | .run => true
  | _ => false

/-- No callback runs in the step: it is the same however callbacks run, and reports none. -/
def Step.CallsNothing (step : Step α) : Prop :=
  ∀ jobs inner, (∀ other, perform jobs inner step = perform jobs other step) ∧
    IsSilent (perform jobs inner step)

variable {jobs : Nat} {inner : List (Step α) → Play α (List (Report (Answer α) (Event α)))}

theorem silent_withHandle {n : Int} {f : Nat → Play α (Answer α)} (hf : ∀ q, IsSilent (f q)) :
    IsSilent (withHandle n f) := by
  refine .bind (.look _) ?_
  intro found
  cases found with
  | none => exact .pure _
  | some q => exact hf q

theorem silent_posting
    {f : Exchange α (Callback α) String → Bool × Exchange α (Callback α) String} :
    IsSilent (do posting f; return .done : Play α (Answer α)) := by
  refine .bind (.bind (.operate _) ?_) fun _ => .pure _
  intro accepted
  cases accepted with
  | true => exact .pure _
  | false => exact .throw _

theorem silent_poll (id : Int) (waker : String) :
    IsSilent (perform jobs inner (.poll id waker)) := by
  refine .bind (.look _) ?_
  rintro (_ | ⟨q, _ | t⟩)
  · exact .pure _
  · exact .throw _
  · exact .answer _ (.operate _)

theorem silent_asyncPop (n name : Int) (body : List (Step α)) :
    IsSilent (perform jobs inner (.asyncPop n name body)) := by
  refine silent_withHandle fun q => .bind (.operate _) ?_
  rintro (_ | ⟨t, _ | _⟩)
  · exact .pure _
  · exact .bind (.throw _) fun _ => .answer _ (.change _)
  · exact .answer _ (.change _)

theorem silent_dropPop (id : Int) : IsSilent (perform jobs inner (.dropPop id)) := by
  refine .bind (.look _) ?_
  rintro (_ | p)
  · exact .pure _
  · exact .answer _ (.change _)

theorem silent_withdraw (n name : Int) : IsSilent (perform jobs inner (.withdraw n name)) := by
  refine silent_withHandle fun q => .bind (.look _) ?_
  rintro (_ | t)
  · exact .pure _
  · exact .answer _ (.operate _)

/-- Only a step that has jobs run calls anything. -/
theorem callsNothing (step : Step α) : step.runsJobs = true ∨ step.CallsNothing := by
  have same : step.runsJobs = true ∨ ∀ jobs inner, ∀ other, perform jobs inner step
      = perform jobs other step := by
    cases step with
    | runOne | run => exact .inl rfl
    | _ => exact .inr fun _ _ _ => rfl
  have silent : step.runsJobs = true ∨ ∀ jobs inner, IsSilent (perform jobs inner step) := by
    cases step with
    | new h => exact .inr fun _ _ => silent_posting
    | clone h target => exact .inr fun _ _ => silent_withHandle fun _ => silent_posting
    | drop h => exact .inr fun _ _ => silent_withHandle fun _ => silent_posting
    | push h value => exact .inr fun _ _ => silent_withHandle fun _ => silent_posting
    | stop h => exact .inr fun _ _ => silent_withHandle fun _ => silent_posting
    | debug h => exact .inr fun _ _ => silent_withHandle fun _ => .answer _ (.look _)
    | asyncPop h name body => exact .inr fun _ _ => silent_asyncPop h name body
    | pop h id => exact .inr fun _ _ => silent_withHandle fun _ => .answer _ (.operate _)
    | poll id waker => exact .inr fun _ _ => silent_poll id waker
    | dropPop id => exact .inr fun _ _ => silent_dropPop id
    | withdraw h name => exact .inr fun _ _ => silent_withdraw h name
    | runOne | run => exact .inl rfl
    | shutdown => exact .inr fun _ _ => .answer _ (.change _)
    | panic message => exact .inr fun _ _ => .throw _
    | unknown => exact .inr fun _ _ => .pure _
  rcases same with hruns | hsame
  · exact .inl hruns
  · exact silent.imp id fun hsilent jobs inner => ⟨hsame jobs inner, hsilent jobs inner⟩

/--
**Every wait has one fate, and its ticket names only it.**

After any operations, and for each queue, the history of its waits gives every wait one fate.  What
operations and steps of scripts answer then is read off this history: a ticket withdraws its own
wait while that is outstanding, a second wait is refused exactly while one is outstanding and
nothing changes, and callbacks run in no step but those that have jobs run.
-/
theorem waits_of_run (ops : List (Op α (Callback α) String)) (q : Nat) :
    IsFated (Exchange.turns {} q ops) ∧
    (Exchange.after {} ops).Heeds q (Exchange.turns {} q ops) ∧
      (∀ granted, TellsFate ⟨Exchange.after {} ops, granted⟩ q (Exchange.turns {} q ops)) ∧
      ∀ step : Step α, step.runsJobs = true ∨ step.CallsNothing := by
  have hfares := Exchange.fares_of_run ops q
  exact ⟨hfares.numbers.isFated, hfares.heeds, fun _ => tellsFate_of_heeds hfares.heeds,
    callsNothing⟩

/-- A stale ticket leaves the later wait alone; the future that it replaced was withdrawn. -/
example : ({} : Exchange Nat Unit Unit).turns 0
    [.create 0, .asyncPop 0 (), .withdraw 0 0, .pop 0 7, .withdraw 0 0, .dropPop 7, .asyncPop 0 (),
      .push 0 3, .asyncPop 0 (), .runJob, .withdraw 0 2]
        = [.began 0 (some ()), .withdrawn 0, .began 1 none, .withdrawn 1, .began 2 (some ()),
          .served 2 (some ()) (.value 3)] := rfl

end Dialogue.Handoff
