/-
What one queue undergoes in a run.

Seen from one queue, an operation on an exchange does one of four things: it appends a value, it
stops the queue, it gives the next result to the wait in progress, or it leaves the buffer and the
armed cancellation alone.  `mark?` reads off an operation, before it is performed, which of these it
will be: a push through a handle, a stop or the loss of the last handle, a result given by a job or
a poll.  `Undergoes` says exactly what becomes of the queue then.

A future whose wait was withdrawn resolves as cancelled when it is polled.  That is no result of the
queue, and it leaves no mark.
-/
import Dialogue.Proofs.Handoff.Run

namespace Dialogue.Handoff

/-- What can happen to a queue. -/
inductive Mark (α : Type)
  | pushed (a : α)
  /-- The queue was stopped, explicitly or with its last handle. -/
  | stopped
  /-- The wait with this ticket was given the next result. -/
  | gave (ticket : Nat) (d : Delivery α)
deriving DecidableEq

namespace Exchange

variable {α κ ω : Type}

/-- The operation asks a queue to stop. -/
def asksStop (x : Exchange α κ ω) (q : Nat) : Op α κ ω → Bool
  | .stop h => x.handles.get? h = some q
  | _ => false

/-- The last handle of a queue goes in the operation. -/
def losesHandles (x : Exchange α κ ω) (q : Nat) (op : Op α κ ω) : Bool :=
  q ∈ x.handles.values ∧ q ∉ (x.step op).handles.values

/-- The value that an operation pushes to a queue. -/
def pushed? (x : Exchange α κ ω) (q : Nat) : Op α κ ω → Option α
  | .push h a => if x.handles.get? h = some q then some a else none
  | _ => none

/-- The wait on a queue that an operation ends by giving it a result, and that result. -/
def given? (x : Exchange α κ ω) (q : Nat) : Op α κ ω → Option (Nat × Delivery α)
  | .runJob =>
    match x.nextJob? with
    | some (some (_, d), _) =>
      if x.jobs.next?.map (·.1) = some q then (x.queue q).waiting.ticket?.map (·, d) else none
    | _ => none
  | .poll id waker =>
    match x.pops.get? id with
    | some ⟨p, some t⟩ =>
      match (x.pollPop id p t waker).1 with
      | .delivered d => if p = q then some (t, d) else none
      | _ => none
    | _ => none
  | _ => none

/-- What an operation does to a queue. -/
def mark? (x : Exchange α κ ω) (q : Nat) (op : Op α κ ω) : Option (Mark α) :=
  if x.asksStop q op || x.losesHandles q op then some .stopped
  else ((x.pushed? q op).map .pushed).or ((x.given? q op).map fun (t, d) => .gave t d)

/-- All that happens to a queue in a run. -/
def marks (x : Exchange α κ ω) (q : Nat) (ops : List (Op α κ ω)) : List (Mark α) :=
  seen step (fun x op => x.mark? q op) x ops

end Exchange

/-! ### A queue at rest -/

variable {α κ ω : Type}

/-- The values stay.  The wait may end, and one may begin under a new number. -/
structure Queue.Keeps (old new : Queue α κ ω) : Prop where
  values : new.values = old.values
  next : old.nextTicket ≤ new.nextTicket
  wait : ∀ t, new.waiting.ticket? = some t →
    old.waiting.ticket? = some t ∨ old.nextTicket ≤ t ∧ t < new.nextTicket

/-- The values and the cancellation stay. -/
structure Queue.Rests (old new : Queue α κ ω) : Prop extends old.Keeps new where
  cancelled : new.cancelled = old.cancelled

namespace Queue.Rests

variable {q r s : Queue α κ ω}

theorem refl (q : Queue α κ ω) : q.Rests q :=
  ⟨⟨rfl, Nat.le_refl _, fun _ ht => .inl ht⟩, rfl⟩

theorem trans (h : q.Rests r) (k : r.Rests s) : q.Rests s := by
  refine ⟨⟨k.values.trans h.values, Nat.le_trans h.next k.next, ?_⟩,
    k.cancelled.trans h.cancelled⟩
  intro t ht
  have hq := h.next
  have hr := k.next
  rcases k.wait t ht with hold | ⟨hlo, hhi⟩
  · rcases h.wait t hold with hold | ⟨hlo, hhi⟩
    · exact .inl hold
    · exact .inr ⟨hlo, by omega⟩
  · exact .inr ⟨by omega, hhi⟩

theorem withdraw (q : Queue α κ ω) (t : Nat) : q.Rests (q.withdraw t) := by
  refine ⟨⟨values_withdraw q t, Nat.le_of_eq (nextTicket_withdraw q t).symm, ?_⟩,
    cancelled_withdraw q t⟩
  intro u hu
  rw [ticket?_withdraw] at hu
  split at hu
  · cases hu
  · exact .inl hu

theorem wait? {make : Nat → Waiting κ ω} {t : Nat} {notice : Option (Notice ω)}
    (hmake : ∀ t, (make t).ticket? = some t) (h : q.wait? make = some (t, notice, r)) :
    q.Rests r := by
  obtain ⟨-, ht, hticket, hnext, hvalues, hcancelled⟩ := of_wait? hmake h
  refine ⟨⟨hvalues, by omega, ?_⟩, hcancelled⟩
  intro u hu
  rw [hticket] at hu
  cases hu
  exact .inr ⟨by omega, by omega⟩

/-- A wait goes on under its ticket. -/
theorem of_ticket {w : Waiting κ ω} (h : w.ticket? = q.waiting.ticket?) :
    q.Rests { q with waiting := w } := by
  refine ⟨⟨rfl, Nat.le_refl _, ?_⟩, rfl⟩
  intro t ht
  exact .inl (h ▸ ht)

end Queue.Rests

/-- What becomes of a queue in an operation with this mark. -/
inductive Undergoes (old new : Queue α κ ω) : Option (Mark α) → Prop
  | rests (h : old.Rests new) : Undergoes old new none
  | pushes {a} (queue : new = (old.push a).2) : Undergoes old new (some (.pushed a))
  | stops (queue : new = old.stop.2) : Undergoes old new (some .stopped)
  /-- The wait in progress is given the next result and ends. -/
  | gives {t d r} (wait : old.waiting.ticket? = some t) (result : old.nextResult? = some (d, r))
      (queue : new = { r with waiting := .idle }) : Undergoes old new (some (.gave t d))

namespace Exchange

variable {x : Exchange α κ ω}

/-! ### Handles that go -/

theorem losesHandles_of_same {x : Exchange α κ ω} {op : Op α κ ω} (q : Nat)
    (h : (x.step op).handles = x.handles) : x.losesHandles q op = false := by
  rw [losesHandles, h]
  simp

theorem queue_append_fresh (x : Exchange α κ ω) (handles : Table Nat) (p : Nat) :
    ({ x with queues := x.queues ++ [.fresh], handles := handles } : Exchange α κ ω).queue p
      = x.queue p := by
  show (x.queues ++ [Queue.fresh])[p]?.getD .fresh = x.queues[p]?.getD .fresh
  rw [List.getElem?_append]
  split
  · rfl
  · next hp =>
    rw [List.getElem?_eq_none (by omega : x.queues.length ≤ p)]
    cases hk : p - x.queues.length with
    | zero => rfl
    | succ k => rfl

/-- The handles differ, and a queue may have been made; all else is the same. -/
structure SameButHandles (x y : Exchange α κ ω) : Prop where
  queue : ∀ p, y.queue p = x.queue p
  length : x.queues.length ≤ y.queues.length
  pops : y.pops = x.pops
  woken : y.woken = x.woken
  jobs : y.jobs = x.jobs

theorem SameButHandles.refl (x : Exchange α κ ω) : SameButHandles x x :=
  ⟨fun _ => rfl, Nat.le_refl _, rfl, rfl, rfl⟩

/-- What making a queue or moving a handle comes to. -/
inductive MovesHandles (x : Exchange α κ ω) (op : Op α κ ω) : Exchange α κ ω → Prop
  /-- No queue loses its last handle. -/
  | keeps {y} (same : SameButHandles x y) (lost : ∀ q, x.losesHandles q op = false) :
      MovesHandles x op y
  /-- One queue does, and it is stopped. -/
  | stops {y old} (same : SameButHandles x y) (made : old < y.queues.length)
      (lost : ∀ q, x.losesHandles q op = true ↔ q = old) : MovesHandles x op (y.stop old).2

/-- A queue of which no handle is replaced or dropped keeps its handles. -/
theorem movesHandles_of_kept {y : Exchange α κ ω} {op : Op α κ ω} {h : Int} (hx : IsValid x)
    (hstep : x.step op = y) (same : SameButHandles x y) (hnone : x.handles.get? h = none)
    (hkeep : ∀ e ∈ (x.handles.erase h).entries, e ∈ y.handles.entries) :
    MovesHandles x op (x.step op) := by
  rw [hstep]
  refine .keeps same ?_
  intro q
  rw [← Bool.not_eq_true]
  intro hl
  obtain ⟨hmem, hgone⟩ := by simpa [losesHandles, hstep] using hl
  rw [Table.get?_of_gone hx.proper hmem hkeep hgone] at hnone
  cases hnone

/-- A handle that is replaced or dropped stops its queue if it was the last. -/
theorem movesHandles_of_released {y : Exchange α κ ω} {op : Op α κ ω} {h : Int} {old : Nat}
    (hx : IsValid x) (hstep : x.step op = (y.released old).2) (same : SameButHandles x y)
    (hold : x.handles.get? h = some old)
    (hkeep : ∀ e ∈ (x.handles.erase h).entries, e ∈ y.handles.entries) :
    MovesHandles x op (x.step op) := by
  have hmem := Table.mem_values_of_get? hold
  have hmade := hx.made old hmem
  have hlength := same.length
  have hlost : ∀ q, x.losesHandles q op = true ↔ q = old ∧ old ∉ y.handles.values := by
    intro q
    rw [losesHandles, hstep, handles_released, decide_eq_true_iff]
    refine ⟨?_, ?_⟩
    · rintro ⟨hin, hgone⟩
      have hget := Table.get?_of_gone hx.proper hin hkeep hgone
      rw [hold] at hget
      cases hget
      exact ⟨rfl, hgone⟩
    · rintro ⟨rfl, hgone⟩
      exact ⟨hmem, hgone⟩
  rw [hstep, released]
  by_cases hgone : old ∈ y.handles.values
  · rw [if_pos hgone]
    refine .keeps same ?_
    intro q
    rw [← Bool.not_eq_true, hlost]
    exact fun hl => hl.2 hgone
  · rw [if_neg hgone]
    refine .stops same (by omega) ?_
    intro q
    rw [hlost]
    exact ⟨fun hl => hl.1, fun hq => ⟨hq, hgone⟩⟩

theorem movesHandles (hx : IsValid x) {op : Op α κ ω} (hop : op.movesHandle = true) :
    MovesHandles x op (x.step op) := by
  -- an operation through a handle that is not there does nothing
  have nothing : x.step op = x → MovesHandles x op (x.step op) := by
    intro hstep
    have hlost : ∀ q, x.losesHandles q op = false :=
      fun q => losesHandles_of_same q (congrArg handles hstep)
    rw [hstep]
    exact .keeps (.refl x) hlost
  cases op with
  | create h =>
    have hkeep : ∀ e ∈ (x.handles.erase h).entries,
        e ∈ (x.handles.put h x.queues.length).entries := fun _ he => List.mem_cons_of_mem _ he
    have same : SameButHandles x { x with
        queues := x.queues ++ [.fresh]
        handles := x.handles.put h x.queues.length } :=
      ⟨queue_append_fresh x _, by simp, rfl, rfl, rfl⟩
    cases hg : x.handles.get? h with
    | none =>
      exact movesHandles_of_kept hx (by simp only [step, create, storeHandle, hg]) same hg hkeep
    | some old =>
      exact movesHandles_of_released hx (by simp only [step, create, storeHandle, hg]) same hg hkeep
  | clone h target =>
    cases hg : x.handles.get? h with
    | none => exact nothing (by simp only [step, via, hg])
    | some p =>
      have hkeep : ∀ e ∈ (x.handles.erase target).entries,
          e ∈ (x.handles.put target p).entries := fun _ he => List.mem_cons_of_mem _ he
      have same : SameButHandles x { x with handles := x.handles.put target p } :=
        ⟨fun _ => rfl, Nat.le_refl _, rfl, rfl, rfl⟩
      cases ht : x.handles.get? target with
      | none =>
        exact movesHandles_of_kept hx (by simp only [step, via, hg, storeHandle, ht]) same ht hkeep
      | some old =>
        exact movesHandles_of_released hx
          (by simp only [step, via, hg, storeHandle, ht]) same ht hkeep
  | drop h =>
    cases hg : x.handles.get? h with
    | none => exact nothing (by simp only [step, dropHandle, hg])
    | some old =>
      have same : SameButHandles x { x with handles := x.handles.erase h } :=
        ⟨fun _ => rfl, Nat.le_refl _, rfl, rfl, rfl⟩
      exact movesHandles_of_released hx (by simp only [step, dropHandle, hg]) same hg
        (fun _ he => he)
  | _ => cases hop

/-- Making a queue, and moving handles, does nothing to a queue but stop it with its last handle. -/
theorem queue_of_movesHandle (hx : IsValid x) (q : Nat) {op : Op α κ ω}
    (hop : op.movesHandle = true) :
    (x.step op).queue q
      = if x.losesHandles q op = true then (x.queue q).stop.2 else x.queue q := by
  have hmoves := movesHandles hx hop
  generalize x.step op = y at hmoves ⊢
  cases hmoves with
  | keeps same lost => rw [lost, if_neg (by simp), same.queue]
  | @stops y old same made lost =>
    rw [stop, queue_commit, queue_setQueue y old q _ made]
    by_cases hq : q = old
    · rw [if_pos hq, if_pos ((lost q).mpr hq), same.queue, hq]
    · rw [if_neg hq, if_neg (fun hl => hq ((lost q).mp hl)), same.queue]

theorem undergoes_of_movesHandle (hx : IsValid x) (q : Nat) {op : Op α κ ω}
    (hop : op.movesHandle = true) :
    Undergoes (x.queue q) ((x.step op).queue q) (x.mark? q op) := by
  have hmark : x.mark? q op = if x.losesHandles q op = true then some .stopped else none := by
    cases op with
    | create h => simp [mark?, asksStop, pushed?, given?]
    | clone h target => simp [mark?, asksStop, pushed?, given?]
    | drop h => simp [mark?, asksStop, pushed?, given?]
    | _ => cases hop
  rw [hmark, queue_of_movesHandle hx q hop]
  by_cases hl : x.losesHandles q op = true
  · rw [if_pos hl, if_pos hl]
    exact .stops rfl
  · rw [if_neg hl, if_neg hl]
    exact .rests (.refl _)

/-! ### Pushing and stopping -/

/-- What an operation through a handle does to its queue. -/
theorem queue_via_commit (hx : IsValid x) (q : Nat) (h : Int)
    (f : Queue α κ ω → Option (Notice ω) × Queue α κ ω) :
    (x.via h fun p => (x.commit p (f (x.queue p))).2).queue q
      = if x.handles.get? h = some q then (f (x.queue q)).2 else x.queue q := by
  unfold via
  cases hg : x.handles.get? h with
  | none => rfl
  | some p =>
    have hp : p < x.queues.length := hx.made p (Table.mem_values_of_get? hg)
    dsimp only
    rw [queue_commit, queue_setQueue x p q _ hp]
    by_cases hq : q = p
    · rw [if_pos hq, if_pos (by rw [hq]), hq]
    · rw [if_neg hq, if_neg (fun hs => hq (Option.some.inj hs).symm)]

/-- The mark of an operation that leaves all handles where they are. -/
theorem mark?_of_same {op : Op α κ ω} (q : Nat) (hop : op.movesHandle = false) :
    x.mark? q op = if x.asksStop q op = true then some .stopped
      else ((x.pushed? q op).map .pushed).or ((x.given? q op).map fun (t, d) => .gave t d) := by
  rw [mark?, losesHandles_of_same q (handles_step x hop).1, Bool.or_false]

theorem undergoes_push (hx : IsValid x) (q : Nat) (h : Int) (a : α) :
    Undergoes (x.queue q) ((x.step (.push h a)).queue q) (x.mark? q (.push h a)) := by
  rw [mark?_of_same q rfl]
  show Undergoes _ ((x.via h fun p => (x.commit p ((x.queue p).push a)).2).queue q) _
  rw [queue_via_commit hx q h (·.push a)]
  by_cases hg : x.handles.get? h = some q
  · simp only [asksStop, pushed?, if_pos hg]
    exact .pushes rfl
  · simp only [asksStop, pushed?, if_neg hg]
    exact .rests (.refl _)

theorem undergoes_stop (hx : IsValid x) (q : Nat) (h : Int) :
    Undergoes (x.queue q) ((x.step (.stop h)).queue q) (x.mark? q (.stop h)) := by
  rw [mark?_of_same q rfl]
  show Undergoes _ ((x.via h fun p => (x.commit p (x.queue p).stop).2).queue q) _
  rw [queue_via_commit hx q h Queue.stop]
  by_cases hg : x.handles.get? h = some q
  · rw [if_pos hg, asksStop, if_pos (by simpa using hg)]
    exact .stops rfl
  · rw [if_neg hg, asksStop, if_neg (by simpa using hg)]
    exact .rests (.refl _)

/-! ### Waiting and withdrawing -/

theorem rests_commit {q p t : Nat} {make : Nat → Waiting κ ω} {notice : Option (Notice ω)}
    {new : Queue α κ ω} (hmake : ∀ t, (make t).ticket? = some t)
    (h : (x.queue p).wait? make = some (t, notice, new)) :
    (x.queue q).Rests ((x.commit p (notice, new)).2.queue q) := by
  rw [queue_commit]
  exact setQueue_rel .refl x p q (.wait? hmake h)

theorem rests_releasePop (x : Exchange α κ ω) (p : Pop) (q : Nat) :
    (x.queue q).Rests ((x.releasePop p).queue q) := by
  unfold releasePop
  split
  · exact .refl _
  · next t ht => exact setQueue_rel .refl x p.queue q (.withdraw _ t)

theorem rests_asyncPop (q : Nat) (h : Int) (handler : κ) :
    (x.queue q).Rests ((x.step (.asyncPop h handler)).queue q) := by
  simp only [step, via]
  split
  · exact .refl _
  · next p hp =>
    unfold asyncPop?
    cases hw : (x.queue p).wait? (.callback · handler) with
    | none => exact .refl _
    | some r =>
      obtain ⟨t, notice, new⟩ := r
      exact rests_commit (fun _ => rfl) hw

theorem rests_pop (q : Nat) (h id : Int) :
    (x.queue q).Rests ((x.step (.pop h id)).queue q) := by
  simp only [step, via]
  split
  · exact .refl _
  · next p hp =>
    unfold pop?
    cases hw : (x.queue p).wait? (.future · none) with
    | none => exact .refl _
    | some r =>
      obtain ⟨t, notice, new⟩ := r
      have hcommit := rests_commit (x := x) (q := q) (fun _ => rfl) hw
      show (x.queue q).Rests (((x.commit p (notice, new)).2.storePop id ⟨p, some t⟩).queue q)
      unfold storePop
      dsimp only
      split
      · exact hcommit
      · next old hold =>
        have hrelease := rests_releasePop { (x.commit p (notice, new)).2 with
          pops := (x.commit p (notice, new)).2.pops.put id ⟨p, some t⟩ } old q
        exact hcommit.trans hrelease

theorem rests_dropPop (q : Nat) (id : Int) :
    (x.queue q).Rests ((x.step (.dropPop id)).queue q) := by
  simp only [step, dropPop]
  split
  · exact .refl _
  · next p hp => exact rests_releasePop { x with pops := x.pops.erase id } p q

theorem rests_withdraw (q : Nat) (h : Int) (t : Nat) :
    (x.queue q).Rests ((x.step (.withdraw h t)).queue q) := by
  simp only [step, via]
  split
  · exact .refl _
  · next p hp =>
    unfold withdraw
    split
    · exact .refl _
    · next new hnew =>
      have hwithdraw : (x.queue p).withdraw t = new := by rw [Queue.withdraw, hnew]; rfl
      rw [← hwithdraw]
      exact setQueue_rel .refl x p q (.withdraw _ t)

/-! ### Giving -/

/-- What is given to the wait on a queue that was made alters this queue and no other. -/
theorem undergoes_of_given {y : Exchange α κ ω} {p t : Nat} {d : Delivery α}
    {r : Queue α κ ω} (q : Nat) (hy : y.queues = x.queues)
    (ht : (x.queue p).waiting.ticket? = some t) (hd : (x.queue p).nextResult? = some (d, r)) :
    Undergoes (x.queue q) ((y.setQueue p { r with waiting := .idle }).queue q)
      (if p = q then some (.gave t d) else none) := by
  have hp : p < y.queues.length := by
    rw [hy]
    exact lt_length_of_ticket ht
  have hqueue : y.queue q = x.queue q := by rw [queue, queue, hy]
  rw [queue_setQueue y p q _ hp, hqueue]
  by_cases hq : p = q
  · subst hq
    rw [if_pos rfl, if_pos rfl]
    exact .gives ht hd rfl
  · rw [if_neg (fun h => hq h.symm), if_neg hq]
    exact .rests (.refl _)

theorem queue_pollPop (x : Exchange α κ ω) (id : Int) (p t : Nat) (waker : ω) (q : Nat) :
    (x.pollPop id p t waker).2.queue q
      = (x.setQueue p ((x.queue p).poll t waker).2).queue q := by
  unfold pollPop
  dsimp only
  split <;> rfl

theorem polled_pollPop (x : Exchange α κ ω) (id : Int) (p t : Nat) (waker : ω) :
    (x.pollPop id p t waker).1 = ((x.queue p).poll t waker).1 := by
  unfold pollPop
  dsimp only
  split
  · next hpending => rw [hpending]
  · rfl

/-- A poll of a future that has no wait does nothing. -/
theorem step_poll_of_not_waits {id : Int} {waker : ω}
    (h : ¬∃ p t, x.pops.get? id = some ⟨p, some t⟩) : x.step (.poll id waker) = x := by
  simp only [step]
  split
  · next p t hpop => exact absurd ⟨p, t, hpop⟩ h
  · rfl

theorem given?_poll_of_not_waits {q : Nat} {id : Int} {waker : ω}
    (h : ¬∃ p t, x.pops.get? id = some ⟨p, some t⟩) :
    x.given? q (.poll id waker) = none := by
  simp only [given?]
  split
  · next p t hpop => exact absurd ⟨p, t, hpop⟩ h
  · rfl

theorem undergoes_poll (q : Nat) (id : Int) (waker : ω) :
    Undergoes (x.queue q) ((x.step (.poll id waker)).queue q) (x.mark? q (.poll id waker)) := by
  rw [mark?_of_same q rfl]
  show Undergoes _ _ ((x.given? q (.poll id waker)).map fun (t, d) => .gave t d)
  by_cases hwaits : ∃ p t, x.pops.get? id = some ⟨p, some t⟩
  · obtain ⟨p, t, hpop⟩ := hwaits
    simp only [step, given?, hpop]
    rw [queue_pollPop, polled_pollPop]
    obtain ⟨-, hpoll⟩ | ⟨hticket, d, r, hd, hpoll⟩ | ⟨hticket, -, w, hw, hpoll⟩ :=
      (x.queue p).poll_cases t waker
    · rw [hpoll, queue_setQueue_self]
      exact .rests (.refl _)
    · rw [hpoll]
      have hgiven := undergoes_of_given (y := x) q rfl hticket hd
      dsimp only
      by_cases hq : p = q
      · rw [if_pos hq] at hgiven ⊢
        exact hgiven
      · rw [if_neg hq] at hgiven ⊢
        exact hgiven
    · rw [hpoll]
      exact .rests (setQueue_rel .refl x p q (.of_ticket (hw.trans hticket.symm)))
  · rw [step_poll_of_not_waits hwaits, given?_poll_of_not_waits hwaits]
    exact .rests (.refl _)

theorem undergoes_runJob (q : Nat) :
    Undergoes (x.queue q) ((x.step .runJob).queue q) (x.mark? q .runJob) := by
  rw [mark?_of_same q rfl]
  show Undergoes _ _ ((x.given? q .runJob).map fun (t, d) => .gave t d)
  simp only [step, given?, nextJob?]
  cases hj : x.jobs.next? with
  | none => exact .rests (.refl _)
  | some job =>
    obtain ⟨p, jobs⟩ := job
    have hqueue : ({ x with jobs := jobs } : Exchange α κ ω).queue p = x.queue p := rfl
    dsimp only [Option.map_some]
    rw [hqueue]
    cases hk : (x.queue p).takeCallback? with
    | none => exact .rests (.refl _)
    | some taken =>
      obtain ⟨handler, d, new⟩ := taken
      obtain ⟨t, r, hw, hd, rfl⟩ := Queue.of_takeCallback? hk
      have hticket : (x.queue p).waiting.ticket? = some t := by rw [hw]; rfl
      have hgiven := undergoes_of_given (y := { x with jobs := jobs }) q rfl hticket hd
      dsimp only
      by_cases hq : p = q
      · subst hq
        rw [if_pos rfl] at hgiven ⊢
        rw [hticket]
        exact hgiven
      · rw [if_neg hq] at hgiven
        rw [if_neg (fun hs => hq (Option.some.inj hs))]
        exact hgiven

/-! ### Every operation -/

/-- An operation that neither moves handles nor pushes, stops or gives anything. -/
theorem undergoes_of_rests {op : Op α κ ω} {q : Nat} (hop : op.movesHandle = false)
    (hs : x.asksStop q op = false) (hp : x.pushed? q op = none) (hd : x.given? q op = none)
    (hk : (x.queue q).Rests ((x.step op).queue q)) :
    Undergoes (x.queue q) ((x.step op).queue q) (x.mark? q op) := by
  rw [mark?_of_same q hop, hs, hp, hd]
  exact .rests hk

/-- **Every operation does to every queue what its mark says.** -/
theorem undergoes (hx : IsValid x) (q : Nat) (op : Op α κ ω) :
    Undergoes (x.queue q) ((x.step op).queue q) (x.mark? q op) := by
  cases op with
  | create h => exact undergoes_of_movesHandle hx q rfl
  | clone h target => exact undergoes_of_movesHandle hx q rfl
  | drop h => exact undergoes_of_movesHandle hx q rfl
  | push h a => exact undergoes_push hx q h a
  | stop h => exact undergoes_stop hx q h
  | asyncPop h handler => exact undergoes_of_rests rfl rfl rfl rfl (rests_asyncPop q h handler)
  | pop h id => exact undergoes_of_rests rfl rfl rfl rfl (rests_pop q h id)
  | poll id waker => exact undergoes_poll q id waker
  | dropPop id => exact undergoes_of_rests rfl rfl rfl rfl (rests_dropPop q id)
  | withdraw h t => exact undergoes_of_rests rfl rfl rfl rfl (rests_withdraw q h t)
  | runJob => exact undergoes_runJob q
  | executor jobs => exact undergoes_of_rests rfl rfl rfl rfl (.refl _)

end Exchange

end Dialogue.Handoff
