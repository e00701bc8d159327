/-
Other handlers in the same queues.

A queue stores a handler and gives it back, and looks at nothing in it.  So it makes no difference
whether other handlers take the place of those that wait before an operation or after it,
`relabel_step`; there is one lemma for each operation that this one is made of.  What is proved with
handlers that carry a name can then be said of the same handlers without it.
-/
import Dialogue.Proofs.Handoff.Waits

namespace Dialogue.Handoff

variable {α κ κ' ω : Type} (f : κ → κ')

/-- The wait, with another handler. -/
def Waiting.relabel : Waiting κ ω → Waiting κ' ω
  | idle => .idle
  | callback t k => .callback t (f k)
  | future t waker => .future t waker

/-- The operation, with another handler. -/
def Op.relabel : Op α κ ω → Op α κ' ω
  | create h => .create h
  | clone h target => .clone h target
  | drop h => .drop h
  | push h a => .push h a
  | stop h => .stop h
  | asyncPop h k => .asyncPop h (f k)
  | pop h id => .pop h id
  | poll id waker => .poll id waker
  | dropPop id => .dropPop id
  | withdraw h t => .withdraw h t
  | runJob => .runJob
  | executor jobs => .executor jobs

theorem Op.relabel_of_leftInverse {f : κ → κ'} {g : κ' → κ} (h : Function.LeftInverse g f)
    (op : Op α κ ω) : (op.relabel f).relabel g = op := by
  cases op with
  | asyncPop q k => exact congrArg (asyncPop q) (h k)
  | _ => rfl

/-! ### One queue -/

namespace Queue

/-- The queue, with another handler. -/
def relabel (q : Queue α κ ω) : Queue α κ' ω :=
  ⟨q.values, q.waiting.relabel f, q.cancelled, q.nextTicket⟩

variable (q : Queue α κ ω)

@[simp] theorem isReady_relabel : (q.relabel f).isReady = q.isReady := rfl

@[simp] theorem ticket?_relabel : (q.relabel f).waiting.ticket? = q.waiting.ticket? := by
  show (q.waiting.relabel f).ticket? = _
  cases q.waiting <;> rfl

@[simp] theorem isWaiting_relabel : (q.relabel f).isWaiting = q.isWaiting :=
  congrArg Option.isSome (q.ticket?_relabel f)

theorem nextResult?_relabel :
    (q.relabel f).nextResult? = q.nextResult?.map (.map id (relabel f)) := by
  unfold nextResult? relabel
  cases q.cancelled with
  | true => rfl
  | false => cases q.values <;> rfl

theorem notify_relabel : (q.relabel f).notify = .map id (relabel f) q.notify := by
  unfold notify
  rw [isReady_relabel]
  cases q.isReady with
  | false => rfl
  | true =>
    unfold relabel
    cases hw : q.waiting <;> simp [Waiting.relabel, hw]

theorem push_relabel (a : α) : (q.relabel f).push a = .map id (relabel f) (q.push a) :=
  notify_relabel f { q with values := q.values ++ [a] }

theorem stop_relabel : (q.relabel f).stop = .map id (relabel f) q.stop :=
  notify_relabel f { q with values := [], cancelled := true }

theorem wait?_relabel (make : Nat → Waiting κ ω) :
    (q.relabel f).wait? (fun t => (make t).relabel f) =
      (q.wait? make).map (.map id (.map id (relabel f))) := by
  unfold wait?
  rw [isWaiting_relabel]
  cases q.isWaiting with
  | true => rfl
  | false =>
    refine congrArg (fun r => some (q.nextTicket, r)) ?_
    exact notify_relabel f { q with waiting := make q.nextTicket, nextTicket := q.nextTicket + 1 }

theorem withdraw?_relabel (t : Nat) :
    (q.relabel f).withdraw? t = (q.withdraw? t).map (relabel f) := by
  unfold withdraw?
  rw [ticket?_relabel]
  split <;> rfl

theorem withdraw_relabel (t : Nat) : (q.relabel f).withdraw t = (q.withdraw t).relabel f := by
  unfold withdraw
  rw [withdraw?_relabel]
  cases q.withdraw? t <;> rfl

theorem takeCallback?_relabel :
    (q.relabel f).takeCallback? = q.takeCallback?.map (.map f (.map id (relabel f))) := by
  unfold takeCallback?
  rw [nextResult?_relabel]
  unfold relabel
  cases q.waiting with
  | idle => rfl
  | callback t k =>
    cases q.nextResult? <;> rfl
  | future t waker => rfl

theorem poll_relabel (t : Nat) (waker : ω) :
    (q.relabel f).poll t waker = .map id (relabel f) (q.poll t waker) := by
  unfold poll
  rw [nextResult?_relabel, ticket?_relabel]
  split
  · unfold relabel
    cases q.nextResult? with
    | some r => rfl
    | none =>
      cases hw : q.waiting <;> simp [Waiting.relabel, hw]
  · rfl

end Queue

/-! ### Many queues -/

namespace Exchange

/-- The exchange, with other handlers. -/
def relabel (x : Exchange α κ ω) : Exchange α κ' ω :=
  ⟨x.queues.map (.relabel f), x.handles, x.pops, x.jobs, x.woken⟩

variable (x : Exchange α κ ω)

@[simp] theorem handles_relabel : (x.relabel f).handles = x.handles := rfl

@[simp] theorem pops_relabel : (x.relabel f).pops = x.pops := rfl

@[simp] theorem jobs_relabel : (x.relabel f).jobs = x.jobs := rfl

@[simp] theorem queue_relabel (q : Nat) : (x.relabel f).queue q = (x.queue q).relabel f := by
  unfold queue relabel
  rw [List.getElem?_map]
  cases x.queues[q]? <;> rfl

theorem setQueue_relabel (q : Nat) (new : Queue α κ ω) :
    (x.relabel f).setQueue q (new.relabel f) = (x.setQueue q new).relabel f := by
  unfold setQueue relabel
  rw [List.map_set]

theorem dispatch_relabel (q : Nat) (n : Option (Notice ω)) :
    (x.relabel f).dispatch q n = .map id (relabel f) (x.dispatch q n) := by
  rcases n with _ | _ | waker
  · rfl
  · unfold dispatch
    rw [jobs_relabel]
    cases x.jobs.spawn? q <;> rfl
  · rfl

theorem commit_relabel (q : Nat) (r : Option (Notice ω) × Queue α κ ω) :
    (x.relabel f).commit q (.map id (.relabel f) r) = .map id (relabel f) (x.commit q r) := by
  unfold commit
  rw [Prod.map_snd, setQueue_relabel]
  exact dispatch_relabel f _ q r.1

theorem push_relabel (q : Nat) (a : α) :
    (x.relabel f).push q a = .map id (relabel f) (x.push q a) := by
  unfold push
  rw [queue_relabel, Queue.push_relabel]
  exact commit_relabel f x q _

theorem stop_relabel (q : Nat) : (x.relabel f).stop q = .map id (relabel f) (x.stop q) := by
  unfold stop
  rw [queue_relabel, Queue.stop_relabel]
  exact commit_relabel f x q _

theorem released_relabel (q : Nat) :
    (x.relabel f).released q = .map id (relabel f) (x.released q) := by
  unfold released
  rw [handles_relabel]
  split
  · rfl
  · exact stop_relabel f x q

theorem storeHandle_relabel (h : Int) (q : Nat) :
    (x.relabel f).storeHandle h q = .map id (relabel f) (x.storeHandle h q) := by
  unfold storeHandle
  rw [handles_relabel]
  cases x.handles.get? h with
  | none => rfl
  | some old => exact released_relabel f { x with handles := x.handles.put h q } old

theorem create_relabel (h : Int) :
    (x.relabel f).create h = .map id (relabel f) (x.create h) := by
  have hmade := storeHandle_relabel f { x with queues := x.queues ++ [.fresh] } h x.queues.length
  unfold relabel at hmade
  rw [List.map_append] at hmade
  unfold create relabel
  rw [List.length_map]
  exact hmade

theorem dropHandle_relabel (h : Int) :
    (x.relabel f).dropHandle h = .map id (relabel f) (x.dropHandle h) := by
  unfold dropHandle
  rw [handles_relabel]
  cases x.handles.get? h with
  | none => rfl
  | some q => exact released_relabel f { x with handles := x.handles.erase h } q

theorem asyncPop?_relabel (q : Nat) (k : κ) :
    (x.relabel f).asyncPop? q (f k) = (x.asyncPop? q k).map (.map id (.map id (relabel f))) := by
  have hwait := (x.queue q).wait?_relabel f (.callback · k)
  unfold asyncPop?
  rw [queue_relabel]
  -- the wait that is made has the other handler already
  show Option.map _ (((x.queue q).relabel f).wait? fun t => Waiting.relabel f (.callback t k)) = _
  rw [hwait, Option.map_map, Option.map_map]
  refine congrArg (Option.map · _) (funext fun r => ?_)
  exact congrArg (Prod.mk r.1) (commit_relabel f x q r.2)

theorem releasePop_relabel (p : Pop) :
    (x.relabel f).releasePop p = (x.releasePop p).relabel f := by
  unfold releasePop
  cases p.ticket with
  | none => rfl
  | some t =>
    dsimp only
    rw [queue_relabel, Queue.withdraw_relabel, setQueue_relabel]

theorem storePop_relabel (id : Int) (p : Pop) :
    (x.relabel f).storePop id p = (x.storePop id p).relabel f := by
  unfold storePop
  rw [pops_relabel]
  cases x.pops.get? id with
  | none => rfl
  | some old => exact releasePop_relabel f { x with pops := x.pops.put id p } old

theorem pop?_relabel (id : Int) (q : Nat) :
    (x.relabel f).pop? id q = (x.pop? id q).map (relabel f) := by
  have hwait := (x.queue q).wait?_relabel f (.future · none)
  unfold pop?
  rw [queue_relabel]
  show Option.map _ (((x.queue q).relabel f).wait? fun t => Waiting.relabel f (.future t none)) = _
  rw [hwait, Option.map_map, Option.map_map]
  refine congrArg (Option.map · _) (funext fun r => ?_)
  have hcommit := congrArg Prod.snd (commit_relabel f x q r.2)
  show ((x.relabel f).commit q (.map _ (.relabel f) r.2)).2.storePop id _ = _
  rw [hcommit]
  exact storePop_relabel f (x.commit q r.2).2 id ⟨q, some r.1⟩

theorem dropPop_relabel (id : Int) : (x.relabel f).dropPop id = (x.dropPop id).relabel f := by
  unfold dropPop
  rw [pops_relabel]
  cases x.pops.get? id with
  | none => rfl
  | some p => exact releasePop_relabel f { x with pops := x.pops.erase id } p

theorem pollPop_relabel (n : Int) (q t : Nat) (waker : ω) :
    (x.relabel f).pollPop n q t waker = .map id (relabel f) (x.pollPop n q t waker) := by
  unfold pollPop
  rw [queue_relabel, Queue.poll_relabel]
  obtain ⟨polled, new⟩ := (x.queue q).poll t waker
  have hset := setQueue_relabel f x q new
  dsimp only [Prod.map]
  rw [hset]
  cases polled <;> rfl

theorem withdraw_relabel (q t : Nat) :
    (x.relabel f).withdraw q t = .map id (relabel f) (x.withdraw q t) := by
  unfold withdraw
  rw [queue_relabel, Queue.withdraw?_relabel]
  cases (x.queue q).withdraw? t with
  | none => rfl
  | some new => exact congrArg (Prod.mk true) (setQueue_relabel f x q new)

theorem nextJob?_relabel :
    (x.relabel f).nextJob? = x.nextJob?.map (.map (.map (.map f id)) (relabel f)) := by
  unfold nextJob?
  rw [jobs_relabel]
  cases x.jobs.next? with
  | none => rfl
  | some r =>
    obtain ⟨q, jobs⟩ := r
    have hsame : ({ x.relabel f with jobs } : Exchange α κ' ω) =
        ({ x with jobs } : Exchange α κ ω).relabel f := rfl
    simp only [Option.map_some, hsame, queue_relabel, Queue.takeCallback?_relabel]
    generalize ({ x with jobs } : Exchange α κ ω) = y
    cases (y.queue q).takeCallback? with
    | none => rfl
    | some taken =>
      obtain ⟨k, d, new⟩ := taken
      have hset := setQueue_relabel f y q new
      exact congrArg (fun z => some (some (f k, d), z)) hset

theorem via_relabel (h : Int) {g : Nat → Exchange α κ ω} {g' : Nat → Exchange α κ' ω}
    (hg : ∀ q, g' q = (g q).relabel f) : (x.relabel f).via h g' = (x.via h g).relabel f := by
  unfold via
  rw [handles_relabel]
  cases x.handles.get? h with
  | none => rfl
  | some q => exact hg q

/-- **An operation does the same to other handlers.** -/
theorem relabel_step (op : Op α κ ω) :
    (x.step op).relabel f = (x.relabel f).step (op.relabel f) := by
  have snd : ∀ {β : Type} {r : β × Exchange α κ ω} {r' : β × Exchange α κ' ω},
      r' = .map id (relabel f) r → r'.2 = r.2.relabel f := by
    rintro β r r' rfl
    rfl
  symm
  cases op with
  | create h => exact snd (create_relabel f x h)
  | clone h target => exact via_relabel f x h fun q => snd (storeHandle_relabel f x target q)
  | drop h => exact snd (dropHandle_relabel f x h)
  | push h a => exact via_relabel f x h fun q => snd (push_relabel f x q a)
  | stop h => exact via_relabel f x h fun q => snd (stop_relabel f x q)
  | asyncPop h k =>
    refine via_relabel f x h fun q => ?_
    rw [asyncPop?_relabel]
    cases x.asyncPop? q k <;> rfl
  | pop h n =>
    refine via_relabel f x h fun q => ?_
    rw [pop?_relabel]
    cases x.pop? n q <;> rfl
  | poll n waker =>
    simp only [Op.relabel, step]
    rw [pops_relabel]
    split
    · exact snd (pollPop_relabel f x n _ _ waker)
    · rfl
  | dropPop n => exact dropPop_relabel f x n
  | withdraw h t => exact via_relabel f x h fun q => snd (withdraw_relabel f x q t)
  | runJob =>
    simp only [Op.relabel, step]
    rw [nextJob?_relabel]
    cases x.nextJob? <;> rfl
  | executor jobs => rfl

/-- The handler that is handed out is the other one, and is given the same. -/
theorem invoked?_relabel (op : Op α κ ω) :
    (x.relabel f).invoked? (op.relabel f) = (x.invoked? op).map (.map f id) := by
  cases op with
  | runJob =>
    simp only [Op.relabel, invoked?]
    rw [nextJob?_relabel]
    cases x.nextJob? <;> rfl
  | _ => rfl

end Exchange

end Dialogue.Handoff
