/-
The results of a queue, in order.

`Queue.due` lists what a queue gives if nothing else happens to it: an armed cancellation, and then
the buffered values.  Seen through this list a push appends, a stop leaves nothing but one
cancellation, and a result is taken off at the head.  Who waits, and how, does not show in it, and
neither do waits that are refused, withdrawn or abandoned.

`Serves` replays a history of marks on such a list.  A replay may be cut at any mark, and between
two stops what it gives and what it leaves is what was due and what was pushed.  All that is said
here about stops and cancellations is read off replays.
-/
import Dialogue.Proofs.Handoff.Marks

namespace Dialogue.Handoff

variable {α κ ω : Type}

/-- What a queue gives, in order, if nothing else happens to it. -/
def Queue.due (q : Queue α κ ω) : List (Delivery α) :=
  (if q.cancelled then [.cancelled] else []) ++ q.values.map .value

namespace Mark

/-- What the queue gave. -/
def result? : Mark α → Option (Delivery α)
  | gave _ d => some d
  | _ => none

/-- What was pushed. -/
def value? : Mark α → Option α
  | pushed a => some a
  | _ => none

end Mark

/-- The results that a queue gave, in order. -/
def results (h : List (Mark α)) : List (Delivery α) :=
  h.filterMap Mark.result?

/-- The values that were pushed, in order. -/
def arrivals (h : List (Mark α)) : List α :=
  h.filterMap Mark.value?

theorem results_cons (m : Mark α) (h : List (Mark α)) :
    results (m :: h) = m.result?.toList ++ results h := by
  cases m <;> rfl

theorem arrivals_cons (m : Mark α) (h : List (Mark α)) :
    arrivals (m :: h) = m.value?.toList ++ arrivals h := by
  cases m <;> rfl

/-- A history takes what is due from one list to another. -/
inductive Serves : List (Delivery α) → List (Mark α) → List (Delivery α) → Prop
  | done {due} : Serves due [] due
  | pushes {due a h rest} (next : Serves (due ++ [.value a]) h rest) :
      Serves due (.pushed a :: h) rest
  | stops {due h rest} (next : Serves [.cancelled] h rest) : Serves due (.stopped :: h) rest
  | gives {due t d h rest} (next : Serves due h rest) : Serves (d :: due) (.gave t d :: h) rest

/-- One cancellation, and then values. -/
def IsCancelled (due : List (Delivery α)) : Prop :=
  ∃ values : List α, due = .cancelled :: values.map .value

/-- Values, of which the first may have a cancellation before it. -/
def IsOrderly (due : List (Delivery α)) : Prop :=
  (∃ values : List α, due = values.map .value) ∨ IsCancelled due

namespace Serves

variable {due mid rest : List (Delivery α)} {h k : List (Mark α)}

theorem append (hs : Serves due h mid) (ks : Serves mid k rest) : Serves due (h ++ k) rest := by
  induction hs with
  | done => exact ks
  | pushes _ ih => exact .pushes (ih ks)
  | stops _ ih => exact .stops (ih ks)
  | gives _ ih => exact .gives (ih ks)

/-- A replay may be cut anywhere. -/
theorem split (hs : Serves due (h ++ k) rest) :
    ∃ mid, Serves due h mid ∧ Serves mid k rest := by
  induction h generalizing due with
  | nil => exact ⟨due, .done, hs⟩
  | cons m h ih =>
    cases hs with
    | pushes next =>
      obtain ⟨mid, hm, km⟩ := ih next
      exact ⟨mid, .pushes hm, km⟩
    | stops next =>
      obtain ⟨mid, hm, km⟩ := ih next
      exact ⟨mid, .stops hm, km⟩
    | gives next =>
      obtain ⟨mid, hm, km⟩ := ih next
      exact ⟨mid, .gives hm, km⟩

/-- Without a stop everything that was due or pushed is given in order, or still due. -/
theorem results_eq (hs : Serves due h rest) (hstop : .stopped ∉ h) :
    results h ++ rest = due ++ (arrivals h).map .value := by
  induction hs with
  | done => simp [results, arrivals]
  | pushes _ ih =>
    have hnext := ih (fun hmem => hstop (List.mem_cons_of_mem _ hmem))
    simpa [results_cons, arrivals_cons, Mark.result?, Mark.value?] using hnext
  | stops _ _ => exact absurd List.mem_cons_self hstop
  | gives _ ih =>
    have hnext := ih (fun hmem => hstop (List.mem_cons_of_mem _ hmem))
    simpa [results_cons, arrivals_cons, Mark.result?, Mark.value?] using hnext

/-- A cancellation stays the next result until it is given. -/
theorem isCancelled (hs : Serves due h rest) (hdue : IsCancelled due) (hnone : results h = []) :
    IsCancelled rest := by
  induction hs with
  | done => exact hdue
  | @pushes due a h rest _ ih =>
    obtain ⟨values, rfl⟩ := hdue
    refine ih ⟨values ++ [a], ?_⟩ hnone
    simp
  | stops _ ih => exact ih ⟨[], rfl⟩ hnone
  | gives _ _ => simp [results_cons, Mark.result?] at hnone

/-- Behind the next result no cancellation is ever due. -/
theorem isOrderly (hs : Serves due h rest) (hdue : IsOrderly due) : IsOrderly rest := by
  induction hs with
  | done => exact hdue
  | @pushes due a h rest _ ih =>
    refine ih ?_
    rcases hdue with ⟨values, rfl⟩ | ⟨values, rfl⟩
    · refine .inl ⟨values ++ [a], ?_⟩
      simp
    · refine .inr ⟨values ++ [a], ?_⟩
      simp
  | stops _ ih => exact ih (.inr ⟨[], rfl⟩)
  | @gives due t d h rest _ ih =>
    refine ih ?_
    rcases hdue with ⟨values, hvalues⟩ | ⟨values, hvalues⟩
    · obtain ⟨a, values, rfl, -, rfl⟩ := List.map_eq_cons_iff.mp hvalues.symm
      exact .inl ⟨values, rfl⟩
    · obtain ⟨-, rfl⟩ := List.cons.inj hvalues
      exact .inl ⟨values, rfl⟩

end Serves

/-! ### What a history says about stops -/

/--
A stop is one-shot and takes precedence.

The history `h` is all that happened to a queue, and `due` is what it would give next.  Results are
those given by jobs and polls, to whichever wait.
-/
structure IsOneShot (h : List (Mark α)) (due : List (Delivery α)) : Prop where
  /-- The next result after a stop is a cancellation, whatever comes in between. -/
  precedence : ∀ before between after t d,
    h = before ++ .stopped :: between ++ .gave t d :: after → results between = [] →
      d = .cancelled
  /-- Stops between which nothing is given cause one cancellation, given or still due. -/
  single : ∀ before between after, h = before ++ .stopped :: between ++ after →
    results between = [] → .stopped ∉ after → IsCancelled (results after ++ due)
  /-- Two cancellations have a stop between them. -/
  caused : ∀ before t between u after,
    h = before ++ .gave t .cancelled :: between ++ .gave u .cancelled :: after →
      .stopped ∈ between
  /-- After the last stop the cancellation is given, and then the values pushed since, in order. -/
  resumes : ∀ before after, h = before ++ .stopped :: after → .stopped ∉ after →
    results after ++ due = .cancelled :: (arrivals after).map .value
  /-- Before the first stop, the values pushed are given in order. -/
  starts : .stopped ∉ h → results h ++ due = (arrivals h).map .value

/-- What is replayed from an empty queue is one-shot. -/
theorem Serves.isOneShot {h : List (Mark α)} {due : List (Delivery α)} (hs : Serves [] h due) :
    IsOneShot h due := by
  refine ⟨?_, ?_, ?_, ?_, ?_⟩
  · intro before between after t d hh hnone
    subst hh
    obtain ⟨mid, hbetween, hgiven⟩ := hs.split
    obtain ⟨_, -, hstopped⟩ := hbetween.split
    cases hstopped with
    | stops next =>
      obtain ⟨values, rfl⟩ := next.isCancelled ⟨[], rfl⟩ hnone
      cases hgiven
      rfl
  · intro before between after hh hnone hstop
    subst hh
    obtain ⟨mid, hbetween, hafter⟩ := hs.split
    obtain ⟨_, -, hstopped⟩ := hbetween.split
    cases hstopped with
    | stops next =>
      obtain ⟨values, rfl⟩ := next.isCancelled ⟨[], rfl⟩ hnone
      refine ⟨values ++ arrivals after, ?_⟩
      rw [hafter.results_eq hstop, List.map_append, List.cons_append]
  · intro before t between u after hh
    subst hh
    obtain ⟨mid, hbetween, hsecond⟩ := hs.split
    obtain ⟨first, hbefore, hfirst⟩ := hbetween.split
    have horder := hbefore.isOrderly (.inl ⟨[], rfl⟩)
    by_contra hstop
    -- nothing but values is due behind the first cancellation, and only values join them
    cases hfirst with
    | @gives left _ _ _ _ next =>
      cases hsecond with
      | @gives right _ _ _ _ _ =>
        have heq := next.results_eq hstop
        rcases horder with ⟨values, hvalues⟩ | ⟨values, hvalues⟩
        · cases values <;> cases hvalues
        · obtain ⟨-, rfl⟩ := List.cons.inj hvalues
          have hmem : .cancelled ∈ values.map Delivery.value
              ++ (arrivals between).map .value := by
            rw [← heq]
            exact List.mem_append_right _ List.mem_cons_self
          simp at hmem
  · intro before after hh hstop
    subst hh
    obtain ⟨mid, -, hstopped⟩ := hs.split
    cases hstopped with
    | stops next => exact next.results_eq hstop
  · intro hstop
    exact hs.results_eq hstop

/-! ### What a queue undergoes shows in what is due -/

namespace Queue

variable {q r : Queue α κ ω}

theorem due_push (q : Queue α κ ω) (a : α) : (q.push a).2.due = q.due ++ [.value a] := by
  simp [due]

theorem due_stop (q : Queue α κ ω) : q.stop.2.due = [.cancelled] := by
  simp [due]

theorem Rests.due_eq (h : q.Rests r) : r.due = q.due := by
  rw [due, due, h.values, h.cancelled]

/-- The next result is the head of what is due. -/
theorem due_of_nextResult? {d : Delivery α} (h : q.nextResult? = some (d, r)) :
    q.due = d :: r.due := by
  obtain ⟨hc, rfl, rfl⟩ | ⟨hc, a, rest, hvalues, rfl, rfl⟩ := of_nextResult? h
  · simp [due, hc]
  · simp [due, hc, hvalues]

theorem due_eq_nil (h : q.nextResult? = none) : q.due = [] := by
  have hready : q.isReady = false := by rw [← nextResult?_isSome, h]; rfl
  have hboth : q.cancelled = false ∧ q.values = [] := by simpa [isReady] using hready
  rw [due, hboth.1, hboth.2]
  rfl

end Queue

theorem Undergoes.serves {old new : Queue α κ ω} {m : Option (Mark α)}
    (h : Undergoes old new m) : Serves old.due m.toList new.due := by
  cases h with
  | rests h =>
    rw [h.due_eq]
    exact .done
  | @pushes a queue =>
    rw [queue, Queue.due_push]
    exact .pushes .done
  | stops queue =>
    rw [queue, Queue.due_stop]
    exact .stops .done
  | @gives t d r wait result queue =>
    have hdue : new.due = r.due := by rw [queue]; rfl
    rw [Queue.due_of_nextResult? result, hdue]
    exact .gives .done

namespace Exchange

/-- The results of a queue are offered to whoever waits, in the order in which they are due. -/
structure Offers (x : Exchange α κ ω) (q : Nat) : Prop where
  /-- A poll of a registered future is given the next result, if there is one. -/
  poll : ∀ id t waker, x.pops.get? id = some ⟨q, some t⟩ →
    (x.queue q).waiting.ticket? = some t →
    (x.pollPop id q t waker).1 = ((x.queue q).due.head?.map .delivered).getD .pending ∧
      x.mark? q (.poll id waker) = (x.queue q).due.head?.map (.gave t)
  /-- A job is, if its queue has a waiting callback. -/
  job : ∀ jobs t handler, x.jobs.next? = some (q, jobs) →
    (x.queue q).waiting = .callback t handler →
    x.nextJob?.map Prod.fst = some ((x.queue q).due.head?.map (handler, ·)) ∧
      x.mark? q .runJob = (x.queue q).due.head?.map (.gave t)
  /-- A future whose wait was withdrawn is cancelled without a result. -/
  withdrawn : ∀ id t waker, x.pops.get? id = some ⟨q, some t⟩ →
    (x.queue q).waiting.ticket? ≠ some t →
    (x.pollPop id q t waker).1 = .withdrawn ∧ x.mark? q (.poll id waker) = none ∧
      ((x.step (.poll id waker)).queue q) = x.queue q

theorem mark?_poll {x : Exchange α κ ω} {q t : Nat} {id : Int} {waker : ω}
    (hpop : x.pops.get? id = some ⟨q, some t⟩) :
    x.mark? q (.poll id waker)
      = match ((x.queue q).poll t waker).1 with
        | .delivered d => some (.gave t d)
        | _ => none := by
  rw [mark?_of_same q rfl]
  show (x.given? q (.poll id waker)).map (fun given => Mark.gave given.1 given.2) = _
  simp only [given?, hpop]
  rw [polled_pollPop]
  cases ((x.queue q).poll t waker).1 with
  | delivered d => simp
  | _ => rfl

theorem offers (x : Exchange α κ ω) (q : Nat) : x.Offers q := by
  refine ⟨?_, ?_, ?_⟩
  · intro id t waker hpop hwait
    rw [mark?_poll hpop, polled_pollPop]
    obtain ⟨hother, -⟩ | ⟨-, d, r, hd, hpoll⟩ | ⟨-, hnone, w, -, hpoll⟩ :=
      (x.queue q).poll_cases t waker
    · exact absurd hwait hother
    · rw [hpoll, Queue.due_of_nextResult? hd]
      exact ⟨rfl, rfl⟩
    · rw [hpoll, Queue.due_eq_nil hnone]
      exact ⟨rfl, rfl⟩
  · intro jobs t handler hnext hwait
    have hmark : x.mark? q .runJob
        = (x.given? q .runJob).map fun given => .gave given.1 given.2 := mark?_of_same q rfl
    have hqueue : ({ x with jobs := jobs } : Exchange α κ ω).queue q = x.queue q := rfl
    rw [hmark]
    simp only [given?, nextJob?, hnext, Option.map_some, hqueue]
    cases hd : (x.queue q).nextResult? with
    | none =>
      have htake : (x.queue q).takeCallback? = none := by
        simp only [Queue.takeCallback?, hwait, hd]
      rw [htake, Queue.due_eq_nil hd]
      exact ⟨rfl, rfl⟩
    | some dr =>
      obtain ⟨d, r⟩ := dr
      have htake : (x.queue q).takeCallback? = some (handler, d, { r with waiting := .idle }) := by
        simp only [Queue.takeCallback?, hwait, hd]
      rw [htake, Queue.due_of_nextResult? hd, hwait]
      simp [Waiting.ticket?]
  · intro id t waker hpop hwait
    have hpoll : (x.queue q).poll t waker = (.withdrawn, x.queue q) := by
      rw [Queue.poll, if_neg hwait]
    rw [mark?_poll hpop, polled_pollPop, hpoll]
    refine ⟨rfl, rfl, ?_⟩
    simp only [step, hpop]
    rw [queue_pollPop, hpoll, queue_setQueue_self]

/-! ### Along every run -/

theorem serves_of_run (ops : List (Op α κ ω)) (q : Nat) :
    IsValid (after {} ops) ∧ Serves [] (marks {} q ops) ((after {} ops).queue q).due := by
  refine foldl_induction step
    (P := fun ops x => IsValid x ∧ Serves [] (marks {} q ops) (x.queue q).due) ?_ ?_ ops
  · exact ⟨isValid_start, .done⟩
  · intro ops op ⟨hx, hs⟩
    refine ⟨hx.step op, ?_⟩
    have hmarks : marks {} q (ops ++ [op])
        = marks {} q ops ++ ((after {} ops).mark? q op).toList := seen_concat _ _ _ _ _
    rw [hmarks]
    exact hs.append (undergoes hx q op).serves

/--
**A stop is one-shot and takes precedence.**

After any operations, and for each queue, the results given so far and those still due are ordered
by the stops as `IsOneShot` says, and whoever waits is offered the next of them.
-/
theorem stops_of_run (ops : List (Op α κ ω)) (q : Nat) :
    IsOneShot (marks {} q ops) ((after {} ops).queue q).due ∧ (after {} ops).Offers q := by
  obtain ⟨-, hs⟩ := serves_of_run ops q
  exact ⟨hs.isOneShot, offers _ q⟩

/-- Two stops, a wait abandoned between them and a push after them cause one cancellation. -/
example : ({} : Exchange Nat Unit Unit).marks 0
    [.create 0, .push 0 3, .stop 0, .pop 0 0, .dropPop 0, .stop 0, .push 0 7, .asyncPop 0 (),
      .runJob, .asyncPop 0 (), .runJob]
        = [.pushed 3, .stopped, .stopped, .pushed 7, .gave 1 .cancelled, .gave 2 (.value 7)] := rfl

end Exchange

end Dialogue.Handoff
