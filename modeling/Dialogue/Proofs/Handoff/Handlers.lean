/-
Where a handler is.

A handler comes into an exchange with the wait that it is given for, and leaves it in one of two
ways: the wait is withdrawn, and nobody sees the handler again, or the job that serves the wait
hands it out.  `handlers_step` says so for every operation at once: of the handlers that wait and
the one that is given, some are left waiting, one may be handed out, and **none is in two places**.
A queue does not keep what it hands out.

The law is an inclusion with multiplicities, `List.Subperm`, because a handler may be lost but not
copied.  All of it comes from one operation, the replacement of a queue.
-/
import Dialogue.Proofs.Handoff.Relabel
import Mathlib.Data.List.Perm.Basic
import Mathlib.Data.List.Perm.Subperm

namespace Dialogue.Handoff

variable {α κ ω : Type}

/-- The handler that waits on a queue. -/
def Queue.handler? (q : Queue α κ ω) : Option κ :=
  q.waiting.claim?.bind (·.2)

/-- The handler that an operation brings along. -/
def Op.handler? : Op α κ ω → Option κ
  | asyncPop _ k => some k
  | _ => none

theorem Op.handler?_relabel {κ' : Type} (f : κ → κ') (op : Op α κ ω) :
    (op.relabel f).handler? = op.handler?.map f := by
  cases op <;> rfl

namespace Queue

/-- The handler of a queue stays, or it goes. -/
def Sheds (old new : Queue α κ ω) : Prop :=
  new.handler?.toList.Sublist old.handler?.toList

theorem Sheds.of_eq {old new : Queue α κ ω} (h : new.waiting.claim? = old.waiting.claim?) :
    Sheds old new := by
  rw [Sheds, handler?, handler?, h]

theorem Sheds.of_none {old new : Queue α κ ω} (h : new.handler? = none) : Sheds old new := by
  rw [Sheds, h]
  exact List.nil_sublist _

theorem sheds_withdraw (q : Queue α κ ω) (t : Nat) : Sheds q (q.withdraw t) := by
  unfold withdraw withdraw?
  split
  · exact .of_none rfl
  · exact .of_eq rfl

theorem sheds_poll (q : Queue α κ ω) (t : Nat) (waker : ω) : Sheds q (q.poll t waker).2 := by
  unfold poll
  split
  · split
    · exact .of_none rfl
    · split
      · exact .of_none rfl
      · exact .of_eq rfl
  · exact .of_eq rfl

end Queue

namespace Exchange

/-- The handlers that wait. -/
def handlers (x : Exchange α κ ω) : List κ :=
  x.queues.filterMap (·.handler?)

variable {x y : Exchange α κ ω}

theorem handlers_of_queues (h : y.queues = x.queues) : y.handlers = x.handlers := by
  rw [handlers, handlers, h]

/-- The handler of the queue that is replaced is exchanged for that of the other. -/
theorem handlers_setQueue (x : Exchange α κ ω) (q : Nat) (new : Queue α κ ω) :
    ((x.queue q).handler?.toList ++ (x.setQueue q new).handlers).Subperm
      (new.handler?.toList ++ x.handlers) := by
  by_cases hq : q < x.queues.length
  · have hset := (List.getD_set_perm_cons x.queues q new).filterMap (·.handler?)
    have hget : x.queues[q]?.getD new = x.queue q := by
      rw [queue, List.getElem?_eq_getElem hq]
      rfl
    rw [hget] at hset
    have hcons : ∀ (r : Queue α κ ω) (rs : List (Queue α κ ω)),
        (r :: rs).filterMap (·.handler?) = r.handler?.toList ++ rs.filterMap (·.handler?) := by
      intro r rs
      cases hr : r.handler? <;> simp [hr]
    rw [hcons, hcons] at hset
    exact hset.subperm
  · have hsame : (x.setQueue q new).handlers = x.handlers := by
      rw [handlers, setQueue, List.set_eq_of_length_le (by omega)]
      rfl
    rw [queue_eq_fresh (by omega), hsame]
    exact (List.sublist_append_right _ _).subperm

/-! ### Operations that hand nothing out -/

/-- No handler is added. -/
def Sheds (x y : Exchange α κ ω) : Prop :=
  y.handlers.Subperm x.handlers

theorem Sheds.of_queues (h : y.queues = x.queues) : Sheds x y := by
  rw [Sheds, handlers_of_queues h]

theorem sheds_setQueue {q : Nat} {new : Queue α κ ω} (h : (x.queue q).Sheds new) :
    Sheds x (x.setQueue q new) := by
  have hswap := handlers_setQueue x q new
  have hless := (h.append_right x.handlers).subperm
  exact (List.subperm_append_left _).mp (hswap.trans hless)

theorem handlers_commit (x : Exchange α κ ω) (q : Nat)
    (r : Option (Notice ω) × Queue α κ ω) :
    (x.commit q r).2.handlers = (x.setQueue q r.2).handlers :=
  handlers_of_queues (queues_commit x q r)

theorem sheds_commit {q : Nat} {r : Option (Notice ω) × Queue α κ ω}
    (h : (x.queue q).Sheds r.2) : Sheds x (x.commit q r).2 := by
  rw [Sheds, handlers_commit]
  exact sheds_setQueue h

theorem sheds_released (x : Exchange α κ ω) (q : Nat) : Sheds x (x.released q).2 := by
  unfold released
  split
  · exact .of_queues rfl
  · exact sheds_commit (.of_eq (Queue.claim?_stop _))

theorem sheds_storeHandle (x : Exchange α κ ω) (h : Int) (q : Nat) :
    Sheds x (x.storeHandle h q).2 := by
  unfold storeHandle
  dsimp only
  split
  · exact .of_queues rfl
  · exact sheds_released { x with handles := x.handles.put h q } _

theorem sheds_create (x : Exchange α κ ω) (h : Int) : Sheds x (x.create h).2 := by
  have hstored := sheds_storeHandle { x with queues := x.queues ++ [.fresh] } h x.queues.length
  have hsame : Exchange.handlers { x with queues := x.queues ++ [.fresh] } = x.handlers := by
    rw [handlers, List.filterMap_append]
    exact List.append_nil _
  rwa [Sheds, hsame] at hstored

theorem sheds_dropHandle (x : Exchange α κ ω) (h : Int) : Sheds x (x.dropHandle h).2 := by
  unfold dropHandle
  split
  · exact .of_queues rfl
  · exact sheds_released { x with handles := x.handles.erase h } _

theorem sheds_releasePop (x : Exchange α κ ω) (p : Pop) : Sheds x (x.releasePop p) := by
  unfold releasePop
  split
  · exact .of_queues rfl
  · exact sheds_setQueue (Queue.sheds_withdraw _ _)

theorem sheds_storePop (x : Exchange α κ ω) (id : Int) (p : Pop) :
    Sheds x (x.storePop id p) := by
  unfold storePop
  dsimp only
  split
  · exact .of_queues rfl
  · exact sheds_releasePop { x with pops := x.pops.put id p } _

theorem sheds_pop (x : Exchange α κ ω) (id : Int) (q : Nat) :
    Sheds x ((x.pop? id q).getD x) := by
  cases hpop : x.pop? id q with
  | none => exact .of_queues rfl
  | some y =>
    obtain ⟨notice, new, hw, rfl⟩ := of_pop? hpop
    obtain ⟨-, hwait, -⟩ := Queue.waiting_wait? (fun _ => rfl) hw
    have hnone : new.handler? = none := by
      rw [Queue.handler?, hwait]
      rfl
    exact (sheds_storePop _ id _).trans (sheds_commit (.of_none hnone))

theorem sheds_dropPop (x : Exchange α κ ω) (id : Int) : Sheds x (x.dropPop id) := by
  unfold dropPop
  split
  · exact .of_queues rfl
  · exact sheds_releasePop { x with pops := x.pops.erase id } _

theorem sheds_pollPop (x : Exchange α κ ω) (id : Int) (q t : Nat) (waker : ω) :
    Sheds x (x.pollPop id q t waker).2 := by
  have hset := sheds_setQueue (Queue.sheds_poll (x.queue q) t waker)
  unfold pollPop
  dsimp only
  split <;> exact hset

theorem sheds_withdraw (x : Exchange α κ ω) (q t : Nat) : Sheds x (x.withdraw q t).2 := by
  unfold withdraw
  split
  · exact .of_queues rfl
  · next new h =>
    have hkept := (x.queue q).sheds_withdraw t
    rw [Queue.withdraw, h] at hkept
    exact sheds_setQueue hkept

theorem sheds_via (h : Int) {f : Nat → Exchange α κ ω} (hf : ∀ q, Sheds x (f q)) :
    Sheds x (x.via h f) := by
  unfold via
  split
  · exact .of_queues rfl
  · exact hf _

/-! ### Giving a handler and handing it out -/

theorem handlers_asyncPop (x : Exchange α κ ω) (h : Int) (k : κ) :
    (x.step (.asyncPop h k)).handlers.Subperm (k :: x.handlers) := by
  have same : x.handlers.Subperm (k :: x.handlers) := (List.sublist_cons_self k _).subperm
  simp only [step, via]
  split
  · exact same
  · next q _ =>
    unfold asyncPop?
    cases hw : (x.queue q).wait? (.callback · k) with
    | none => exact same
    | some r =>
      obtain ⟨t, notice, new⟩ := r
      obtain ⟨-, hwait, -⟩ := Queue.waiting_wait? (fun _ => rfl) hw
      have hnew : new.handler? = some k := by
        rw [Queue.handler?, hwait]
        rfl
      have hswap := handlers_setQueue x q new
      rw [hnew] at hswap
      show (x.commit q (notice, new)).2.handlers.Subperm _
      rw [handlers_commit]
      exact (List.sublist_append_right _ _).subperm.trans hswap

/-- The handler that is handed out waited, and waits no longer. -/
theorem handlers_runJob (x : Exchange α κ ω) :
    (((x.invoked? .runJob).map (·.1)).toList ++ (x.step .runJob).handlers).Subperm x.handlers := by
  simp only [invoked?, step, nextJob?]
  cases x.jobs.next? with
  | none => exact List.Subperm.refl _
  | some r =>
    obtain ⟨q, jobs⟩ := r
    have hqueue : Exchange.queue { x with jobs } q = x.queue q := rfl
    simp only [Option.map_some, Option.bind_some, hqueue]
    cases htake : (x.queue q).takeCallback? with
    | none => exact List.Subperm.refl _
    | some taken =>
      obtain ⟨k, d, new⟩ := taken
      obtain ⟨t, r, hwait, -, rfl⟩ := Queue.of_takeCallback? htake
      have hold : (x.queue q).handler? = some k := by
        rw [Queue.handler?, hwait]
        rfl
      have hswap := handlers_setQueue { x with jobs } q { r with waiting := .idle }
      rw [hqueue, hold] at hswap
      exact hswap

/-- **No operation copies a handler.** -/
theorem handlers_step (x : Exchange α κ ω) (op : Op α κ ω) :
    (((x.invoked? op).map (·.1)).toList ++ (x.step op).handlers).Subperm
      (op.handler?.toList ++ x.handlers) := by
  cases op with
  | create h => exact sheds_create x h
  | clone h target => exact sheds_via h fun q => sheds_storeHandle x target q
  | drop h => exact sheds_dropHandle x h
  | push h a => exact sheds_via h fun q => sheds_commit (.of_eq (Queue.claim?_push _ a))
  | stop h => exact sheds_via h fun q => sheds_commit (.of_eq (Queue.claim?_stop _))
  | asyncPop h k => exact handlers_asyncPop x h k
  | pop h id => exact sheds_via h fun q => sheds_pop x id q
  | poll id waker =>
    show Sheds x (x.step (.poll id waker))
    simp only [step]
    split
    · exact sheds_pollPop x id _ _ waker
    · exact .of_queues rfl
  | dropPop id => exact sheds_dropPop x id
  | withdraw h t => exact sheds_via h fun q => sheds_withdraw x q t
  | runJob => exact handlers_runJob x
  | executor jobs => exact Sheds.of_queues rfl

end Exchange

end Dialogue.Handoff
