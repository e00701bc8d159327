/-
No callback that waits is forgotten.

A job is not tied to the wait or to the value that caused it: one job may serve a later wait, and
most jobs find nothing to do.  So jobs are not counted here.  The invariant is that a queue which
could be served now, because a callback waits and a result is due, has some job in line.  Whatever
makes a queue servable notifies the wait, and a notified callback is posted for; whatever takes a
job out of line leaves its queue unservable.

The executor has to accept every job and to keep what it accepted, first come first served.  A panic
needs no case: it cuts a callback short, and the operations left out were not performed.
-/
import Dialogue.Proofs.Handoff.Due

namespace Dialogue.Handoff

variable {α κ ω : Type}

/-- The operation leaves it to the executor which jobs are in line. -/
def Op.trustsExecutor : Op α κ ω → Bool
  | .executor _ => false
  | _ => true

/-- A callback waits. -/
def Waiting.isCallback : Waiting κ ω → Bool
  | callback _ _ => true
  | _ => false

namespace Queue

/-- A job could serve the queue: a callback waits, and something can be delivered. -/
def isServable (q : Queue α κ ω) : Bool :=
  q.waiting.isCallback && q.isReady

theorem isServable_of_not_callback {q : Queue α κ ω} (h : q.waiting.isCallback = false) :
    q.isServable = false := by
  rw [isServable, h, Bool.false_and]

/-- A wait that could be served is posted for when it is notified. -/
theorem notify_eq_post {q : Queue α κ ω} (h : q.notify.2.isServable = true) :
    q.notify.1 = some .post := by
  unfold notify at h ⊢
  by_cases hready : q.isReady = true
  · rw [if_pos hready] at h ⊢
    cases hw : q.waiting with
    | idle => simp [isServable, hw, Waiting.isCallback] at h
    | callback t k => rfl
    | future t w => simp [isServable, hw, Waiting.isCallback] at h
  · rw [if_neg hready] at h
    simp [isServable, hready] at h

theorem wait?_eq_post {q new : Queue α κ ω} {make : Nat → Waiting κ ω} {t : Nat}
    {notice : Option (Notice ω)} (hw : q.wait? make = some (t, notice, new))
    (h : new.isServable = true) : notice = some .post := by
  unfold wait? at hw
  split at hw
  · cases hw
  · simp only [Option.some.injEq, Prod.mk.injEq] at hw
    obtain ⟨-, hnotify⟩ := hw
    obtain ⟨rfl, rfl⟩ := Prod.ext_iff.mp hnotify
    exact notify_eq_post h

/-- Ending a wait never makes a queue servable. -/
theorem withdraw_eq_or (q : Queue α κ ω) (t : Nat) :
    q.withdraw t = q ∨ (q.withdraw t).isServable = false := by
  unfold withdraw withdraw?
  split
  · exact .inr (isServable_of_not_callback rfl)
  · exact .inl rfl

theorem poll_eq_or (q : Queue α κ ω) (t : Nat) (waker : ω) :
    (q.poll t waker).2 = q ∨ (q.poll t waker).2.isServable = false := by
  unfold poll
  split
  · split
    · exact .inr (isServable_of_not_callback rfl)
    · split
      · exact .inr (isServable_of_not_callback rfl)
      · exact .inl rfl
  · exact .inl rfl

/-- A queue that could be served has a callback and a result to give it, and no other queue has. -/
theorem isServable_iff {q : Queue α κ ω} :
    q.isServable = true ↔ q.takeCallback?.isSome = true := by
  rw [isServable, ← nextResult?_isSome, takeCallback?]
  cases q.waiting with
  | idle => simp [Waiting.isCallback]
  | future t w => simp [Waiting.isCallback]
  | callback t k => cases q.nextResult? <;> simp [Waiting.isCallback]

end Queue

namespace Exchange

variable {x y : Exchange α κ ω}

/-- Every queue that could be served has a job in line. -/
structure Posted (x : Exchange α κ ω) : Prop where
  accepting : x.jobs.accepting = true
  posted : ∀ q, (x.queue q).isServable = true → q ∈ x.jobs.ready

namespace Posted

/-- Nothing is posted, and no queue becomes servable. -/
theorem of_same (h : Posted x) (hjobs : y.jobs = x.jobs)
    (hqueue : ∀ p, y.queue p = x.queue p ∨ (y.queue p).isServable = false) : Posted y := by
  refine ⟨?_, ?_⟩
  · rw [hjobs]
    exact h.accepting
  · intro p hp
    rw [hjobs]
    rcases hqueue p with heq | hno
    · rw [heq] at hp
      exact h.posted p hp
    · rw [hno] at hp
      cases hp

theorem setQueue (h : Posted x) (q : Nat) (new : Queue α κ ω)
    (hnew : new = x.queue q ∨ new.isServable = false) : Posted (x.setQueue q new) := by
  refine h.of_same rfl ?_
  intro p
  rcases queue_setQueue_cases x q p new with heq | ⟨rfl, heq⟩
  · exact .inl heq
  · rw [heq]
    exact hnew

/-- A queue that becomes servable is posted for. -/
theorem commit (h : Posted x) (q : Nat) (r : Option (Notice ω) × Queue α κ ω)
    (hpost : r.2.isServable = true → r.1 = some .post) : Posted (x.commit q r).2 := by
  have hother : ∀ p, p ≠ q → (x.setQueue q r.2).queue p = x.queue p := by
    intro p hp
    rcases queue_setQueue_cases x q p r.2 with heq | ⟨hpq, -⟩
    · exact heq
    · exact absurd hpq hp
  unfold Exchange.commit dispatch
  by_cases hr : r.1 = some .post
  · have hspawn : (x.setQueue q r.2).jobs.spawn? q
        = some { x.jobs with ready := x.jobs.ready ++ [q] } := by
      show (if x.jobs.accepting then _ else _) = _
      rw [if_pos h.accepting]
      rfl
    rw [hr]
    dsimp only
    rw [hspawn]
    refine ⟨h.accepting, ?_⟩
    intro p hp
    by_cases hpq : p = q
    · rw [hpq]
      exact List.mem_append_right _ (List.mem_singleton_self q)
    · have hold : (x.queue p).isServable = true := by
        rw [← hother p hpq]
        exact hp
      exact List.mem_append_left _ (h.posted p hold)
  · have hset : Posted (x.setQueue q r.2) := by
      refine h.setQueue q r.2 (.inr ?_)
      by_contra hserve
      exact hr (hpost (by simpa using hserve))
    split
    · exact hset
    · exact hset.of_same rfl (fun _ => .inl rfl)
    · next hpost => exact absurd hpost hr

theorem push (h : Posted x) (q : Nat) (a : α) : Posted (x.push q a).2 :=
  h.commit q _ Queue.notify_eq_post

theorem stop (h : Posted x) (q : Nat) : Posted (x.stop q).2 :=
  h.commit q _ Queue.notify_eq_post

theorem released (h : Posted x) (q : Nat) : Posted (x.released q).2 := by
  unfold Exchange.released
  split
  · exact h
  · exact h.stop q

theorem storeHandle (h : Posted x) (n : Int) (q : Nat) : Posted (x.storeHandle n q).2 := by
  have hput : Posted { x with handles := x.handles.put n q } := h.of_same rfl (fun _ => .inl rfl)
  unfold Exchange.storeHandle
  dsimp only
  split
  · exact hput
  · exact hput.released _

theorem create (h : Posted x) (n : Int) : Posted (x.create n).2 := by
  refine Posted.storeHandle ?_ n x.queues.length
  refine h.of_same rfl ?_
  intro p
  exact .inl (queue_append_fresh x x.handles p)

theorem dropHandle (h : Posted x) (n : Int) : Posted (x.dropHandle n).2 := by
  unfold Exchange.dropHandle
  split
  · exact h
  · refine Posted.released ?_ _
    exact h.of_same rfl (fun _ => .inl rfl)

theorem releasePop (h : Posted x) (p : Pop) : Posted (x.releasePop p) := by
  unfold Exchange.releasePop
  split
  · exact h
  · exact h.setQueue _ _ ((x.queue p.queue).withdraw_eq_or _)

theorem storePop (h : Posted x) (id : Int) (p : Pop) : Posted (x.storePop id p) := by
  have hput : Posted { x with pops := x.pops.put id p } := h.of_same rfl (fun _ => .inl rfl)
  unfold Exchange.storePop
  dsimp only
  split
  · exact hput
  · exact hput.releasePop _

theorem pollPop (h : Posted x) (id : Int) (q t : Nat) (waker : ω) :
    Posted (x.pollPop id q t waker).2 := by
  have hset := h.setQueue q _ ((x.queue q).poll_eq_or t waker)
  unfold Exchange.pollPop
  dsimp only
  split
  · exact hset
  · exact hset.of_same rfl (fun _ => .inl rfl)

theorem via (h : Posted x) (n : Int) {f : Nat → Exchange α κ ω} (hf : ∀ q, Posted (f q)) :
    Posted (x.via n f) := by
  unfold Exchange.via
  split
  · exact h
  · exact hf _

end Posted

/-! ### Running a job -/

/-- What the job at the head does to the exchange, and the callback that it runs. -/
inductive RunsJob (x y : Exchange α κ ω) (q : Nat) : Option (κ × Delivery α) → Prop
  /-- The callback is given the next result of its queue, and nothing else is taken anywhere. -/
  | serves {t handler d} (wait : (x.queue q).waiting = .callback t handler)
      (result : (x.queue q).due = d :: (y.queue q).due) (idle : (y.queue q).waiting = .idle)
      (others : ∀ p, p ≠ q → y.queue p = x.queue p) : RunsJob x y q (some (handler, d))
  /-- No callback waits, or there is nothing to give it. -/
  | idles (nothing : (x.queue q).isServable = false) (same : y = { x with jobs := y.jobs }) :
      RunsJob x y q none

/-- A job gives at most one result, and only to the callback that waits on its queue. -/
theorem runsJob {q : Nat} {jobs : Roster Nat} (h : x.jobs.next? = some (q, jobs)) :
    ∃ job y, x.nextJob? = some (job, y) ∧ y.jobs = jobs ∧ RunsJob x y q job := by
  have hqueue : ({ x with jobs := jobs } : Exchange α κ ω).queue q = x.queue q := rfl
  unfold nextJob?
  rw [h, Option.map_some]
  dsimp only
  rw [hqueue]
  cases hk : (x.queue q).takeCallback? with
  | none =>
    refine ⟨none, _, rfl, rfl, ?_⟩
    refine .idles ?_ rfl
    rw [← Bool.not_eq_true, Queue.isServable_iff, hk]
    simp
  | some taken =>
    obtain ⟨handler, d, new⟩ := taken
    obtain ⟨t, r, hw, hd, rfl⟩ := Queue.of_takeCallback? hk
    have hmade : q < x.queues.length := lt_length_of_ticket (t := t) (by rw [hw]; rfl)
    have hset := queue_setQueue { x with jobs := jobs } q
    refine ⟨some (handler, d), _, rfl, rfl, ?_⟩
    refine .serves hw ?_ ?_ ?_
    · rw [hset q _ hmade, if_pos rfl]
      show (x.queue q).due = d :: r.due
      exact Queue.due_of_nextResult? hd
    · rw [hset q _ hmade, if_pos rfl]
    · intro p hp
      rw [hset p _ hmade, if_neg hp]
      rfl

/-- The job that goes leaves its queue unservable. -/
theorem Posted.runJob (h : Posted x) : Posted (x.step .runJob) := by
  simp only [step]
  cases hnext : x.jobs.next? with
  | none =>
    have hnone : x.nextJob? = none := by rw [nextJob?, hnext]; rfl
    rw [hnone]
    exact h
  | some head =>
    obtain ⟨q, jobs⟩ := head
    obtain ⟨job, y, hjob, hjobs, hruns⟩ := runsJob hnext
    obtain ⟨hready, haccepting⟩ : x.jobs.ready = q :: jobs.ready ∧
        jobs.accepting = x.jobs.accepting := by
      unfold Roster.next? at hnext
      split at hnext
      · cases hnext
      · next hr =>
        cases hnext
        exact ⟨hr, rfl⟩
    have hidle : (y.queue q).isServable = false ∧ ∀ p, p ≠ q → y.queue p = x.queue p := by
      cases hruns with
      | serves wait result idle others =>
        refine ⟨Queue.isServable_of_not_callback ?_, others⟩
        rw [idle]
        rfl
      | idles nothing same =>
        have hqueue : ∀ p, y.queue p = x.queue p := by
          rw [same]
          exact fun _ => rfl
        rw [hqueue q]
        exact ⟨nothing, fun p _ => hqueue p⟩
    rw [hjob]
    refine ⟨?_, ?_⟩
    · rw [hjobs, haccepting]
      exact h.accepting
    · intro p hp
      rw [hjobs]
      by_cases hpq : p = q
      · rw [hpq, hidle.1] at hp
        cases hp
      · rw [hidle.2 p hpq] at hp
        have hmem := h.posted p hp
        rw [hready] at hmem
        rcases List.mem_cons.mp hmem with heq | hrest
        · exact absurd heq hpq
        · exact hrest

/-! ### Along every run -/

theorem Posted.step (h : Posted x) {op : Op α κ ω} (hop : op.trustsExecutor = true) :
    Posted (x.step op) := by
  cases op with
  | create n => exact h.create n
  | clone n target => exact h.via n fun q => h.storeHandle target q
  | drop n => exact h.dropHandle n
  | push n a => exact h.via n fun q => h.push q a
  | stop n => exact h.via n fun q => h.stop q
  | asyncPop n handler =>
    refine h.via n fun q => ?_
    unfold asyncPop?
    cases hw : (x.queue q).wait? (.callback · handler) with
    | none => exact h
    | some r => exact h.commit q r.2 (Queue.wait?_eq_post hw)
  | pop n id =>
    refine h.via n fun q => ?_
    unfold pop?
    cases hw : (x.queue q).wait? (.future · none) with
    | none => exact h
    | some r => exact (h.commit q r.2 (Queue.wait?_eq_post hw)).storePop id _
  | poll id waker =>
    simp only [Exchange.step]
    split
    · exact h.pollPop _ _ _ _
    · exact h
  | dropPop id =>
    simp only [Exchange.step, dropPop]
    split
    · exact h
    · refine Posted.releasePop ?_ _
      exact h.of_same rfl (fun _ => .inl rfl)
  | withdraw n t =>
    refine h.via n fun q => ?_
    unfold Exchange.withdraw Queue.withdraw?
    split
    · exact h
    · next new hnew =>
      refine h.setQueue q new (.inr ?_)
      split at hnew
      · cases hnew
        exact Queue.isServable_of_not_callback rfl
      · cases hnew
  | runJob => exact h.runJob
  | executor jobs => cases hop

theorem posted_after {ops : List (Op α κ ω)} (hops : ∀ op ∈ ops, op.trustsExecutor = true) :
    Posted (after {} ops) := by
  have hstart : Posted ({} : Exchange α κ ω) := by
    refine ⟨rfl, ?_⟩
    intro q hq
    rw [queue_eq_fresh (Nat.zero_le q)] at hq
    cases hq
  have hrun : ∀ (ops : List (Op α κ ω)) (x : Exchange α κ ω), Posted x →
      (∀ op ∈ ops, op.trustsExecutor = true) → Posted (x.after ops) := by
    intro ops
    induction ops with
    | nil => intro x hx _; exact hx
    | cons op ops ih =>
      intro x hx hall
      refine ih (x.step op) (hx.step (hall op List.mem_cons_self)) ?_
      intro o ho
      exact hall o (List.mem_cons_of_mem op ho)
  exact hrun ops {} hstart hops

/--
**No callback wait is forgotten.**

As long as the executor accepts every job and keeps it, a callback that waits on a queue with
something to deliver has a job in line, so none is left waiting once all jobs ran.  Each job gives
at most one result, and a job that finds no callback or nothing to deliver leaves every queue as it
is.
-/
theorem callbacks_posted (ops : List (Op α κ ω))
    (hops : ∀ op ∈ ops, op.trustsExecutor = true) :
    (∀ q t handler, ((after {} ops).queue q).waiting = .callback t handler →
      ((after {} ops).queue q).isReady = true → q ∈ (after {} ops).jobs.ready) ∧
    ((after {} ops).jobs.ready = [] → ∀ q t handler,
      ((after {} ops).queue q).waiting = .callback t handler →
      ((after {} ops).queue q).isReady = false) ∧
    ∀ q jobs, (after {} ops).jobs.next? = some (q, jobs) →
      ∃ job y, (after {} ops).nextJob? = some (job, y) ∧ y.jobs = jobs ∧
        RunsJob (after {} ops) y q job := by
  have hposted := posted_after hops
  have hall : ∀ q t handler, ((after {} ops).queue q).waiting = .callback t handler →
      ((after {} ops).queue q).isReady = true → q ∈ (after {} ops).jobs.ready := by
    intro q t handler hw hready
    refine hposted.posted q ?_
    rw [Queue.isServable, hw, hready]
    rfl
  refine ⟨hall, ?_, ?_⟩
  · intro hempty q t handler hw
    by_contra hready
    have hmem := hall q t handler hw (by simpa using hready)
    rw [hempty] at hmem
    cases hmem
  · intro q jobs hnext
    exact runsJob hnext

/-- A wait that came after the value and its job is served by that job. -/
theorem callbacks_posted_late :
    let ops : List (Op Nat Unit Unit) :=
      [.create 0, .asyncPop 0 (), .push 0 7, .withdraw 0 0, .asyncPop 0 ()]
    ((after {} ops).queue 0).waiting = .callback 1 () ∧ 0 ∈ (after {} ops).jobs.ready ∧
      ∃ job y, (after {} ops).nextJob? = some (job, y) ∧ y.jobs = { ready := [0] } ∧
        RunsJob (after {} ops) y 0 job := by
  intro ops
  have hops : ∀ op ∈ ops, op.trustsExecutor = true := by decide
  obtain ⟨hposted, -, hruns⟩ := callbacks_posted ops hops
  refine ⟨rfl, ?_, ?_⟩
  · exact hposted 0 1 () rfl rfl
  · exact hruns 0 _ rfl

end Exchange

end Dialogue.Handoff
