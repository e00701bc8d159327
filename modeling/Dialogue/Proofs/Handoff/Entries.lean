/-
What happens to the values of one queue.

For the values of a queue it does not matter how a queue is stopped or who waits: an operation
appends a value, hands the oldest value to the wait in progress, discards all values, or leaves them
alone.  `record?` reads off an operation, before it is performed, which of these it will be.
`Alters` says that just this happens to the queue, and what becomes of the tickets meanwhile.  Both
are what the mark of the operation says, a cancellation left out.
-/
import Dialogue.Proofs.Handoff.Marks

namespace Dialogue.Handoff

/-- What can happen to the values of a queue. -/
inductive Entry (α : Type)
  | pushed (a : α)
  | delivered (ticket : Nat) (a : α)
  /-- The queue was stopped, explicitly or with its last handle; these values were buffered. -/
  | stopped (discarded : List α)

namespace Exchange

variable {α κ ω : Type}

/-- The wait on a queue that an operation ends by giving it a value, and that value. -/
def delivered? (x : Exchange α κ ω) (q : Nat) : Op α κ ω → Option (Nat × α)
  | .runJob =>
    match x.nextJob? with
    | some (some (_, .value a), _) =>
      if x.jobs.next?.map (·.1) = some q then (x.queue q).waiting.ticket?.map (·, a) else none
    | _ => none
  | .poll id waker =>
    match x.pops.get? id with
    | some ⟨p, some t⟩ =>
      match (x.pollPop id p t waker).1 with
      | .delivered (.value a) => if p = q then some (t, a) else none
      | _ => none
    | _ => none
  | _ => none

/-- What an operation does to the values of a queue. -/
def record? (x : Exchange α κ ω) (q : Nat) (op : Op α κ ω) : Option (Entry α) :=
  if x.asksStop q op || x.losesHandles q op then some (.stopped (x.queue q).values)
  else ((x.pushed? q op).map .pushed).or ((x.delivered? q op).map fun (t, a) => .delivered t a)

/-- All that happens to the values of a queue in a run. -/
def history (x : Exchange α κ ω) (q : Nat) (ops : List (Op α κ ω)) : List (Entry α) :=
  seen step (fun x op => x.record? q op) x ops

end Exchange

/-! ### What the values of a queue undergo -/

variable {α κ ω : Type}

/-- What happens to a queue in an operation with this entry. -/
inductive Alters (old new : Queue α κ ω) : Option (Entry α) → Prop
  | keeps (h : old.Keeps new) : Alters old new none
  | pushes {a} (values : new.values = old.values ++ [a])
      (ticket : new.waiting.ticket? = old.waiting.ticket?)
      (next : new.nextTicket = old.nextTicket) : Alters old new (some (.pushed a))
  /-- The wait in progress is given the oldest value and ends. -/
  | delivers {t a} (wait : old.waiting.ticket? = some t) (values : old.values = a :: new.values)
      (idle : new.waiting.ticket? = none) (next : new.nextTicket = old.nextTicket) :
      Alters old new (some (.delivered t a))
  | stops (values : new.values = []) (ticket : new.waiting.ticket? = old.waiting.ticket?)
      (next : new.nextTicket = old.nextTicket) : Alters old new (some (.stopped old.values))

/-- What a mark says about the values, given those that are buffered. -/
def Mark.entry? (buffered : List α) : Mark α → Option (Entry α)
  | pushed a => some (.pushed a)
  | stopped => some (.stopped buffered)
  | gave t (.value a) => some (.delivered t a)
  | gave _ .cancelled => none

/-- What a queue undergoes alters its values as the mark says. -/
theorem Undergoes.alters {old new : Queue α κ ω} {m : Option (Mark α)}
    (h : Undergoes old new m) : Alters old new (m.bind (Mark.entry? old.values)) := by
  cases h with
  | rests h => exact .keeps h.toKeeps
  | pushes queue =>
    subst queue
    refine .pushes ?_ ?_ ?_
    · exact Queue.values_push _ _
    · exact Queue.ticket?_push _ _
    · exact Queue.nextTicket_push _ _
  | stops queue =>
    subst queue
    refine .stops ?_ ?_ ?_
    · exact Queue.values_stop _
    · exact Queue.ticket?_stop _
    · exact Queue.nextTicket_stop _
  | gives wait result queue =>
    subst queue
    obtain ⟨-, rfl, rfl⟩ | ⟨-, a, rest, hvalues, rfl, rfl⟩ := Queue.of_nextResult? result
    · exact .keeps ⟨rfl, Nat.le_refl _, nofun⟩
    · exact .delivers wait hvalues rfl rfl

namespace Exchange

variable {x : Exchange α κ ω}

theorem record?_of_same {x : Exchange α κ ω} {op : Op α κ ω} {q : Nat}
    (h : (x.step op).handles = x.handles) (hs : x.asksStop q op = false) :
    x.record? q op
      = ((x.pushed? q op).map .pushed).or
        ((x.delivered? q op).map fun (t, a) => .delivered t a) := by
  rw [record?, losesHandles_of_same q h, hs]
  rfl

/-- What is delivered is what is given, unless that is word of a stop. -/
theorem map_delivered? (x : Exchange α κ ω) (q : Nat) (op : Op α κ ω) (buffered : List α) :
    (x.delivered? q op).map (fun (t, a) => .delivered t a)
      = ((x.given? q op).map fun (t, d) => .gave t d).bind (Mark.entry? buffered) := by
  cases op with
  | runJob =>
    simp only [delivered?, given?]
    split
    · next a _ hjob =>
      rw [hjob]
      dsimp only
      split
      · cases (x.queue q).waiting.ticket? <;> rfl
      · rfl
    · next hno =>
      split
      · next handler d y hjob =>
        cases d with
        | value a => exact absurd hjob (hno handler a y)
        | cancelled =>
          split
          · cases (x.queue q).waiting.ticket? <;> rfl
          · rfl
      · rfl
  | poll id waker =>
    simp only [delivered?, given?]
    cases x.pops.get? id with
    | none => rfl
    | some pop =>
      obtain ⟨p, ticket⟩ := pop
      cases ticket with
      | none => rfl
      | some t =>
        dsimp only
        rcases (x.pollPop id p t waker).1 with _ | (a | _) | _
        · rfl
        · dsimp only
          split <;> rfl
        · dsimp only
          split <;> rfl
        · rfl
  | _ => rfl

/-- The entry of an operation is what its mark says about the values. -/
theorem record?_eq (x : Exchange α κ ω) (q : Nat) (op : Op α κ ω) :
    x.record? q op = (x.mark? q op).bind (Mark.entry? (x.queue q).values) := by
  unfold record? mark?
  split
  · rfl
  · rw [map_delivered? x q op (x.queue q).values]
    cases x.pushed? q op with
    | none => simp only [Option.map_none, Option.none_or]
    | some a => rfl

/-- **Every operation does to every queue what its entry says.** -/
theorem alters (hx : IsValid x) (q : Nat) (op : Op α κ ω) :
    Alters (x.queue q) ((x.step op).queue q) (x.record? q op) := by
  rw [record?_eq]
  exact (undergoes hx q op).alters

end Exchange

end Dialogue.Handoff
