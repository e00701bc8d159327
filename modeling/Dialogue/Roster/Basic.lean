/-
Tasks ready to run, first come first served.

The roster is the executor of everything here.  A task that is spawned waits at the end of the line,
whoever runs tasks takes the one at the head, and after a shutdown the line only gets shorter.
-/

namespace Dialogue

/-- The tasks ready to run, in order, and whether more are accepted. -/
structure Roster (τ : Type) where
  ready : List τ := []
  accepting : Bool := true

namespace Roster

variable {τ : Type}

/-- Appends a task; nothing comes of it after a shutdown. -/
def spawn? (r : Roster τ) (task : τ) : Option (Roster τ) :=
  if r.accepting then some { r with ready := r.ready ++ [task] } else none

/-- Appends a task that already ran before and woke itself, which a shutdown does not forbid. -/
def requeue (r : Roster τ) (task : τ) : Roster τ :=
  { r with ready := r.ready ++ [task] }

/-- Takes the task at the head. -/
def next? (r : Roster τ) : Option (τ × Roster τ) :=
  match r.ready with
  | [] => none
  | task :: rest => some (task, { r with ready := rest })

/-- No task is accepted any more; those in the line stay. -/
def shutdown (r : Roster τ) : Roster τ :=
  { r with accepting := false }

theorem ready_of_spawn? {r r' : Roster τ} {task : τ} (h : r.spawn? task = some r') :
    r'.ready = r.ready ++ [task] := by
  unfold spawn? at h
  split at h
  · cases h; rfl
  · cases h

theorem spawn?_eq_none_iff (r : Roster τ) (task : τ) :
    r.spawn? task = none ↔ r.accepting = false := by
  unfold spawn?
  split <;> simp_all

end Roster

end Dialogue
