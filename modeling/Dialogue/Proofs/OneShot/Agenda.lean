/-
A program on one-shots, one moment at a time.

A callable's body runs inside the call, and a panic in it tears down every call around it.  Here
what is still to be done is a list, so that this nesting can be seen from one moment to the next.  A
call that begins puts the steps of its body on top of the list, and under them its own end.  A panic
crosses off everything up to the end of the outermost step, except for the ends of calls and the
drops of what steps keep outside the slots: these are done while the program unwinds.

**At every moment each capture is in one place**, `owned_after`, whether the program comes to an end
or not.
-/
import Dialogue.OneShot.Script
import Dialogue.Proofs.OneShot.Custody
import Mathlib.Logic.Function.Iterate

namespace Dialogue.OneShot

variable {n : Nat}

/-- What is still to be done. -/
inductive Task (n : Nat)
  | step (s : Step n)
  /-- What is in a place is called. -/
  | call (p : Place n)
  /-- The innermost call ends. -/
  | finish
  /-- What a step kept outside the slots is dropped. -/
  | dropLoose
  /-- An outermost step has ended; no panic gets beyond. -/
  | line

/-- What is still to be done after a panic. -/
def unwind : List (Task n) → List (Task n)
  | [] => []
  | .step _ :: rest => unwind rest
  | .call _ :: rest => unwind rest
  | .finish :: rest => .finish :: unwind rest
  | .dropLoose :: rest => .dropLoose :: unwind rest
  | .line :: rest => .line :: rest

/-- What a step does at once, and what is to be done next on account of it. -/
def Step.begin (w : World n) : Step n → World n × List (Task n)
  | .new i name recipe body => (w.new i name recipe body, [])
  | .call i _ => (w, [.call (.slot i)])
  | .callOnce i _ => ({ w with rack := w.rack.takeOut i }, [.call .loose, .dropLoose])
  | .fromFn recipe times =>
    ({ w with rack := w.rack.newLoose recipe },
      List.replicate times (.call .loose) ++ [.dropLoose])
  | .move i j => ({ w with rack := w.rack.move i j }, [])
  | .swap i j => ({ w with rack := w.rack.swap i j }, [])
  | .drop i => ({ w with rack := w.rack.drop i }, [])
  | .inspect _ => (w, [])
  | .panic _ => (w, [])
  | .unknown => (w, [])

/-- The callable that a step makes. -/
def Step.made? (w : World n) : Step n → Option Callable
  | .new _ _ recipe _ => some (w.rack.next recipe)
  | .fromFn recipe _ => some (w.rack.next recipe)
  | _ => none

/-- A rack with its bodies, and what is still to be done on it. -/
structure Machine (n : Nat) where
  world : World n
  agenda : List (Task n)

namespace Task

/-- Does a task, above what else is to be done. -/
def run (w : World n) (rest : List (Task n)) : Task n → Machine n
  | step (.panic _) => ⟨w, unwind rest⟩
  | step s => ⟨(s.begin w).1, (s.begin w).2 ++ rest⟩
  | call p =>
    match w.rack.begin? p with
    | none => ⟨w, rest⟩
    | some (c, rack) => ⟨{ w with rack }, (w.bodyOf c).map step ++ finish :: rest⟩
  | finish => ⟨{ w with rack := w.rack.finish }, rest⟩
  | dropLoose => ⟨{ w with rack := w.rack.dropLoose }, rest⟩
  | line => ⟨w, rest⟩

/-- The callable that a task makes. -/
def made? (w : World n) : Task n → Option Callable
  | step s => s.made? w
  | _ => none

/-- The callable that a task invokes. -/
def invoked? (w : World n) : Task n → Option Callable
  | call p => (w.rack.begin? p).map (·.1)
  | _ => none

end Task

namespace Machine

/-- Does the task at the head of the agenda. -/
def tick (m : Machine n) : Machine n :=
  match m.agenda with
  | [] => m
  | t :: rest => t.run m.world rest

/-- The machine after a number of ticks. -/
def after (m : Machine n) (k : Nat) : Machine n :=
  tick^[k] m

/-- The callable that the next tick makes. -/
def made? (m : Machine n) : Option Callable :=
  m.agenda.head?.bind (·.made? m.world)

/-- The callable that the next tick invokes. -/
def invoked? (m : Machine n) : Option Callable :=
  m.agenda.head?.bind (·.invoked? m.world)

/-- The callables made in a number of ticks. -/
def made (m : Machine n) (k : Nat) : List Callable :=
  (List.range k).filterMap fun i => (m.after i).made?

/-- The callables invoked in a number of ticks. -/
def invoked (m : Machine n) (k : Nat) : List Callable :=
  (List.range k).filterMap fun i => (m.after i).invoked?

theorem after_succ (m : Machine n) (k : Nat) : m.after (k + 1) = (m.after k).tick :=
  Function.iterate_succ_apply' tick k m

theorem after_add (m : Machine n) (k l : Nat) : m.after (k + l) = (m.after k).after l := by
  rw [Nat.add_comm]
  exact Function.iterate_add_apply tick l k m

private theorem filterMap_range_succ {α : Type} (f : Nat → Option α) (k : Nat) :
    (List.range (k + 1)).filterMap f = (List.range k).filterMap f ++ (f k).toList := by
  rw [List.range_succ, List.filterMap_append]
  cases h : f k <;> simp [h]

theorem made_succ (m : Machine n) (k : Nat) :
    m.made (k + 1) = m.made k ++ (m.after k).made?.toList :=
  filterMap_range_succ _ k

theorem invoked_succ (m : Machine n) (k : Nat) :
    m.invoked (k + 1) = m.invoked k ++ (m.after k).invoked?.toList :=
  filterMap_range_succ _ k

end Machine

/-! ### What a tick does to the captures -/

open Dialogue.Rack (Keeps IsOwned)

theorem keeps_step (w : World n) (s : Step n) : Keeps w.rack (s.begin w).1.rack (s.made? w) := by
  cases s with
  | new i name recipe body => exact Rack.keeps_new _ i recipe
  | call i arg => exact .refl _
  | callOnce i arg => exact Rack.keeps_takeOut _ i
  | fromFn recipe times => exact Rack.keeps_newLoose _ recipe
  | move i j => exact Rack.keeps_move _ i j
  | swap i j => exact Rack.keeps_swap _ i j
  | drop i => exact Rack.keeps_drop _ i
  | inspect i => exact .refl _
  | panic message => exact .refl _
  | unknown => exact .refl _

theorem run_call_of_none {w : World n} {rest : List (Task n)} {p : Place n}
    (h : w.rack.begin? p = none) : (Task.call p).run w rest = ⟨w, rest⟩ := by
  rw [Task.run, h]

theorem run_call_of_some {w : World n} {rest : List (Task n)} {p : Place n} {c : Callable}
    {rack : Rack n} (h : w.rack.begin? p = some (c, rack)) :
    (Task.call p).run w rest
      = ⟨{ w with rack }, (w.bodyOf c).map .step ++ .finish :: rest⟩ := by
  rw [Task.run, h]

theorem world_run_step (w : World n) (rest : List (Task n)) (s : Step n) :
    ((Task.step s).run w rest).world = (s.begin w).1 := by
  cases s <;> rfl

theorem keeps_task (w : World n) (rest : List (Task n)) (t : Task n) :
    Keeps w.rack (t.run w rest).world.rack (t.made? w) := by
  cases t with
  | step s =>
    rw [world_run_step]
    exact keeps_step w s
  | call p =>
    cases h : w.rack.begin? p with
    | none =>
      rw [run_call_of_none h]
      exact .refl _
    | some begun =>
      obtain ⟨c, rack⟩ := begun
      rw [run_call_of_some h]
      exact Rack.keeps_begin? h
  | finish => exact Rack.keeps_finish _
  | dropLoose => exact Rack.keeps_dropLoose _
  | line => exact .refl _

/-- A callable is invoked by being taken out of the one-shot that holds it. -/
theorem owned_task {made invoked : List Callable} {w : World n} (h : IsOwned made invoked w.rack)
    (rest : List (Task n)) (t : Task n) :
    IsOwned (made ++ (t.made? w).toList) (invoked ++ (t.invoked? w).toList)
      (t.run w rest).world.rack := by
  cases hinvoked : t.invoked? w with
  | none =>
    rw [Option.toList_none, List.append_nil]
    exact h.keeps (keeps_task w rest t)
  | some c =>
    cases t with
    | call p =>
      obtain ⟨⟨d, rack⟩, hbegin, rfl⟩ := Option.map_eq_some_iff.mp hinvoked
      rw [run_call_of_some hbegin, show (Task.call p).made? w = none from rfl, Option.toList_none,
        List.append_nil]
      exact h.invokes hbegin
    | step _ => cases hinvoked
    | finish => cases hinvoked
    | dropLoose => cases hinvoked
    | line => cases hinvoked

namespace Machine

variable {m : Machine n}

theorem keeps_tick (m : Machine n) : Keeps m.world.rack m.tick.world.rack m.made? := by
  unfold tick made?
  cases m.agenda with
  | nil => exact .refl _
  | cons t rest => exact keeps_task m.world rest t

theorem owned_tick {made invoked : List Callable} (h : IsOwned made invoked m.world.rack) :
    IsOwned (made ++ m.made?.toList) (invoked ++ m.invoked?.toList) m.tick.world.rack := by
  unfold tick made? invoked?
  cases m.agenda with
  | nil =>
    simp only [List.head?_nil, Option.bind_none, Option.toList_none, List.append_nil]
    exact h
  | cons t rest => exact owned_task h rest t

/-- At every moment each capture ever created is in one place. -/
theorem owned_after (h : IsOwned [] [] m.world.rack) (k : Nat) :
    IsOwned (m.made k) (m.invoked k) (m.after k).world.rack := by
  induction k with
  | zero => exact h
  | succ k ih =>
    rw [after_succ, made_succ, invoked_succ]
    exact owned_tick ih

/-- What was released stays released, and what a call has taken does not get back into a
one-shot. -/
theorem kept_after (m : Machine n) (k : Nat) :
    m.world.rack.released <:+ (m.after k).world.rack.released ∧
      ∀ c ∈ m.world.rack.running ++ m.world.rack.released,
        c ∈ (m.after k).world.rack.running ++ (m.after k).world.rack.released := by
  induction k with
  | zero => exact ⟨List.suffix_rfl, fun _ hc => hc⟩
  | succ k ih =>
    have hkeeps := keeps_tick (m.after k)
    rw [after_succ]
    exact ⟨ih.1.trans hkeeps.released, fun c hc => hkeeps.spent c (ih.2 c hc)⟩

end Machine

end Dialogue.OneShot
