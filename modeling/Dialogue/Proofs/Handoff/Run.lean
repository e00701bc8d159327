/-
Every way an exchange can be used.

`Op` lists what a program can do with queues on one executor: it calls handles by number, polls and
drops futures, and lets the executor run the job at the head.  What a callback does when it runs,
and what a panic cuts short, are again such operations, one after the other; so a run is a list of
operations, whoever asks for them.  The executor is not trusted: between two operations it may
refuse jobs or take them again, forget them, run them late or invent them.
-/
import Dialogue.Handoff.Script
import Dialogue.Proofs.Handoff.Queue
import Dialogue.Proofs.History
import Dialogue.Proofs.Table

namespace Dialogue.Handoff

/-- What can be done with queues and their executor. -/
inductive Op (α κ ω : Type)
  /-- Makes a queue; like every handle that is stored, its handle takes the place of another. -/
  | create (h : Int)
  | clone (h target : Int)
  | drop (h : Int)
  | push (h : Int) (a : α)
  | stop (h : Int)
  | asyncPop (h : Int) (handler : κ)
  | pop (h id : Int)
  | poll (id : Int) (waker : ω)
  | dropPop (id : Int)
  /-- Withdraws a ticket, wherever it is from. -/
  | withdraw (h : Int) (t : Nat)
  /-- The executor runs the job at the head. -/
  | runJob
  /-- The executor changes what it has in line and whether it accepts more. -/
  | executor (jobs : Roster Nat)

/-- The operation stores or drops a handle. -/
def Op.movesHandle {α κ ω : Type} : Op α κ ω → Bool
  | .create _ | .clone _ _ | .drop _ => true
  | _ => false

namespace Exchange

variable {α κ ω : Type}

/-- Does something with the queue behind a handle, if there is one. -/
def via (x : Exchange α κ ω) (h : Int) (f : Nat → Exchange α κ ω) : Exchange α κ ω :=
  match x.handles.get? h with
  | none => x
  | some q => f q

/-- Performs an operation.  What it answers is left out here. -/
def step (x : Exchange α κ ω) : Op α κ ω → Exchange α κ ω
  | .create h => (x.create h).2
  | .clone h target => x.via h fun q => (x.storeHandle target q).2
  | .drop h => (x.dropHandle h).2
  | .push h a => x.via h fun q => (x.push q a).2
  | .stop h => x.via h fun q => (x.stop q).2
  | .asyncPop h handler => x.via h fun q =>
    match x.asyncPop? q handler with
    | none => x
    | some (_, _, y) => y
  | .pop h id => x.via h fun q => (x.pop? id q).getD x
  | .poll id waker =>
    match x.pops.get? id with
    | some ⟨q, some t⟩ => (x.pollPop id q t waker).2
    | _ => x
  | .dropPop id => x.dropPop id
  | .withdraw h t => x.via h fun q => (x.withdraw q t).2
  | .runJob =>
    match x.nextJob? with
    | none => x
    | some (_, y) => y
  | .executor jobs => { x with jobs }

/-- The exchange after operations. -/
def after (x : Exchange α κ ω) (ops : List (Op α κ ω)) : Exchange α κ ω :=
  ops.foldl step x

@[simp] theorem after_append (x : Exchange α κ ω) (ops more : List (Op α κ ω)) :
    x.after (ops ++ more) = (x.after ops).after more := by
  simp [after]

/-! ### What an operation changes -/

theorem queue_eq_fresh {x : Exchange α κ ω} {q : Nat} (h : x.queues.length ≤ q) :
    x.queue q = .fresh := by
  rw [queue, List.getElem?_eq_none h]
  rfl

theorem lt_length_of_ticket {x : Exchange α κ ω} {q t : Nat}
    (h : (x.queue q).waiting.ticket? = some t) : q < x.queues.length := by
  by_contra hq
  rw [queue_eq_fresh (by omega)] at h
  cases h

/-- Only a queue that was made is replaced, and no other changes. -/
theorem queue_setQueue_cases (x : Exchange α κ ω) (q p : Nat) (new : Queue α κ ω) :
    (x.setQueue q new).queue p = x.queue p ∨ p = q ∧ (x.setQueue q new).queue p = new := by
  by_cases hq : q < x.queues.length
  · rw [queue_setQueue x q p new hq]
    by_cases hp : p = q
    · exact .inr ⟨hp, if_pos hp⟩
    · exact .inl (if_neg hp)
  · refine .inl ?_
    rw [queue, queue, setQueue, List.set_eq_of_length_le (by omega)]

/-- What holds of the queue that is replaced holds of every queue, if it holds where nothing
changes. -/
theorem setQueue_rel {R : Queue α κ ω → Queue α κ ω → Prop} (hrefl : ∀ r, R r r)
    (x : Exchange α κ ω) (q p : Nat) {new : Queue α κ ω} (h : R (x.queue q) new) :
    R (x.queue p) ((x.setQueue q new).queue p) := by
  rcases queue_setQueue_cases x q p new with heq | ⟨rfl, heq⟩
  · rw [heq]
    exact hrefl _
  · rw [heq]
    exact h

@[simp] theorem queue_setQueue_self (x : Exchange α κ ω) (q p : Nat) :
    (x.setQueue q (x.queue q)).queue p = x.queue p :=
  (setQueue_rel (R := Eq) Eq.refl x q p rfl).symm

theorem handles_dispatch (x : Exchange α κ ω) (q : Nat) (n : Option (Notice ω)) :
    (x.dispatch q n).2.handles = x.handles := by
  unfold dispatch
  split
  · rfl
  · rfl
  · split <;> rfl

theorem handles_commit (x : Exchange α κ ω) (q : Nat)
    (r : Option (Notice ω) × Queue α κ ω) : (x.commit q r).2.handles = x.handles :=
  handles_dispatch _ _ _

theorem length_commit (x : Exchange α κ ω) (q : Nat) (r : Option (Notice ω) × Queue α κ ω) :
    (x.commit q r).2.queues.length = x.queues.length := by
  rw [queues_commit, List.length_set]

theorem queue_commit (x : Exchange α κ ω) (q p : Nat)
    (r : Option (Notice ω) × Queue α κ ω) :
    (x.commit q r).2.queue p = (x.setQueue q r.2).queue p := by
  rw [queue, queue, queues_commit]
  rfl

theorem handles_released (x : Exchange α κ ω) (q : Nat) :
    (x.released q).2.handles = x.handles := by
  unfold released
  split
  · rfl
  · exact handles_commit _ _ _

theorem length_released (x : Exchange α κ ω) (q : Nat) :
    (x.released q).2.queues.length = x.queues.length := by
  unfold released
  split
  · rfl
  · exact length_commit _ _ _

theorem handles_storeHandle (x : Exchange α κ ω) (h : Int) (q : Nat) :
    (x.storeHandle h q).2.handles = x.handles.put h q := by
  unfold storeHandle
  dsimp only
  split
  · rfl
  · exact handles_released _ _

theorem length_storeHandle (x : Exchange α κ ω) (h : Int) (q : Nat) :
    (x.storeHandle h q).2.queues.length = x.queues.length := by
  unfold storeHandle
  dsimp only
  split
  · rfl
  · exact length_released _ _

theorem handles_dropHandle (x : Exchange α κ ω) (h : Int) :
    (x.dropHandle h).2.handles = x.handles ∧ x.handles.get? h = none ∨
      (x.dropHandle h).2.handles = x.handles.erase h := by
  unfold dropHandle
  split
  · next hg => exact .inl ⟨rfl, hg⟩
  · exact .inr (handles_released _ _)

theorem length_dropHandle (x : Exchange α κ ω) (h : Int) :
    (x.dropHandle h).2.queues.length = x.queues.length := by
  unfold dropHandle
  split
  · rfl
  · exact length_released _ _

theorem handles_storePop (x : Exchange α κ ω) (id : Int) (p : Pop) :
    (x.storePop id p).handles = x.handles := by
  unfold storePop releasePop
  dsimp only
  split
  · rfl
  · split <;> rfl

theorem length_storePop (x : Exchange α κ ω) (id : Int) (p : Pop) :
    (x.storePop id p).queues.length = x.queues.length := by
  unfold storePop releasePop
  dsimp only
  split
  · rfl
  · split
    · rfl
    · exact List.length_set

/-! ### Handles refer to queues -/

/-- Every handle refers to a queue that was made. -/
structure IsValid (x : Exchange α κ ω) : Prop where
  proper : x.handles.IsProper
  made : ∀ q ∈ x.handles.values, q < x.queues.length

/-- All other operations leave the handles alone and make no queue. -/
theorem handles_step (x : Exchange α κ ω) {op : Op α κ ω} (hop : op.movesHandle = false) :
    (x.step op).handles = x.handles ∧ (x.step op).queues.length = x.queues.length := by
  have viaSame : ∀ (h : Int) (f : Nat → Exchange α κ ω),
      (∀ q, (f q).handles = x.handles ∧ (f q).queues.length = x.queues.length) →
      (x.via h f).handles = x.handles ∧ (x.via h f).queues.length = x.queues.length := by
    intro h f hf
    unfold via
    split
    · exact ⟨rfl, rfl⟩
    · exact hf _
  have commitSame : ∀ (q : Nat) (r : Option (Notice ω) × Queue α κ ω),
      (x.commit q r).2.handles = x.handles ∧
        (x.commit q r).2.queues.length = x.queues.length :=
    fun q r => ⟨handles_commit _ _ _, length_commit _ _ _⟩
  cases op with
  | create h => cases hop
  | clone h target => cases hop
  | drop h => cases hop
  | push h a => exact viaSame h _ fun q => commitSame q _
  | stop h => exact viaSame h _ fun q => commitSame q _
  | asyncPop h handler =>
    refine viaSame h _ fun q => ?_
    unfold asyncPop?
    cases (x.queue q).wait? (.callback · handler) with
    | none => exact ⟨rfl, rfl⟩
    | some r => exact commitSame q _
  | pop h id =>
    refine viaSame h _ fun q => ?_
    unfold pop?
    cases (x.queue q).wait? (.future · none) with
    | none => exact ⟨rfl, rfl⟩
    | some r =>
      obtain ⟨hh, hl⟩ := commitSame q r.2
      exact ⟨(handles_storePop _ _ _).trans hh, (length_storePop _ _ _).trans hl⟩
  | poll id waker =>
    simp only [step]
    split
    · unfold pollPop
      dsimp only
      split <;> exact ⟨rfl, List.length_set⟩
    · exact ⟨rfl, rfl⟩
  | dropPop id =>
    simp only [step, dropPop]
    split
    · exact ⟨rfl, rfl⟩
    · unfold releasePop
      split
      · exact ⟨rfl, rfl⟩
      · exact ⟨rfl, List.length_set⟩
  | withdraw h t =>
    refine viaSame h _ fun q => ?_
    unfold withdraw
    split
    · exact ⟨rfl, rfl⟩
    · exact ⟨rfl, List.length_set⟩
  | runJob =>
    simp only [step, nextJob?]
    cases x.jobs.next? with
    | none => exact ⟨rfl, rfl⟩
    | some r =>
      dsimp only [Option.map_some]
      split
      · exact ⟨rfl, rfl⟩
      · exact ⟨rfl, List.length_set⟩
  | executor jobs => exact ⟨rfl, rfl⟩

theorem length_create (x : Exchange α κ ω) (h : Int) :
    (x.create h).2.queues.length = x.queues.length + 1 := by
  refine (length_storeHandle _ _ _).trans ?_
  simp

/-- A handle is stored for a queue that was made. -/
theorem IsValid.put {x y : Exchange α κ ω} (hx : IsValid x) {h : Int} {q : Nat}
    (hh : y.handles = x.handles.put h q) (hl : x.queues.length ≤ y.queues.length)
    (hq : q < y.queues.length) : IsValid y := by
  refine ⟨?_, ?_⟩
  · rw [hh]
    exact hx.proper.put h q
  · intro p hp
    rw [hh] at hp
    rcases Table.mem_values_of_put hp with heq | hmem
    · omega
    · have := hx.made p hmem
      omega

theorem IsValid.of_same {x y : Exchange α κ ω} (hx : IsValid x) (hh : y.handles = x.handles)
    (hl : y.queues.length = x.queues.length) : IsValid y := by
  refine ⟨?_, ?_⟩
  · rw [hh]
    exact hx.proper
  · rw [hh, hl]
    exact hx.made

theorem IsValid.step {x : Exchange α κ ω} (hx : IsValid x) (op : Op α κ ω) :
    IsValid (x.step op) := by
  cases hop : op.movesHandle with
  | false =>
    obtain ⟨hh, hl⟩ := handles_step x hop
    exact hx.of_same hh hl
  | true =>
    cases op with
    | create h =>
      have hl := length_create x h
      show IsValid (x.create h).2
      exact hx.put (handles_storeHandle _ _ _) (by omega) (by omega)
    | clone h target =>
      simp only [Exchange.step, via]
      split
      · exact hx
      · next q hq =>
        have hmade := hx.made q (Table.mem_values_of_get? hq)
        have hl := length_storeHandle x target q
        exact hx.put (handles_storeHandle _ _ _) (by omega) (by omega)
    | drop h =>
      have hl := length_dropHandle x h
      show IsValid (x.dropHandle h).2
      obtain ⟨hh, -⟩ | hh := handles_dropHandle x h
      · exact hx.of_same hh hl
      · refine ⟨?_, ?_⟩
        · rw [hh]
          exact hx.proper.erase h
        · intro q hq
          rw [hh] at hq
          rw [hl]
          exact hx.made q (Table.mem_values_of_erase hq)
    | _ => cases hop

theorem isValid_start : IsValid ({} : Exchange α κ ω) :=
  ⟨List.Pairwise.nil, nofun⟩

end Exchange

end Dialogue.Handoff
