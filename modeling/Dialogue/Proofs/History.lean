/-
What is seen along a run.

A system here is a state and a step that takes it to the next state on an input.  A run is a list of
inputs.  Its history is collected by looking at the state before each step: what is sent, written,
pushed or observed in a run are such histories, and none of them has to be kept in the state.
-/
import Mathlib.Data.List.Induction

namespace Dialogue

/-- What is seen of one object, out of what is seen of all by their numbers. -/
def on? {β : Type} (q : Nat) (c : Nat × β) : Option β :=
  if c.1 = q then some c.2 else none

theorem bind_on? {β γ : Type} (p q : Nat) (o : Option β) (f : β → γ) :
    (o.map fun s => (p, f s)).bind (on? q) = if p = q then o.map f else none := by
  cases o with
  | none => simp
  | some s => simp [on?]

variable {σ μ β : Type} (step : σ → μ → σ)

/-- What is seen along a run by looking at the state before each step. -/
def seen (look : σ → μ → Option β) : σ → List μ → List β
  | _, [] => []
  | s, m :: ms => (look s m).toList ++ seen look (step s m) ms

theorem seen_append (look : σ → μ → Option β) (s : σ) (ms ns : List μ) :
    seen step look s (ms ++ ns) = seen step look s ms ++ seen step look (ms.foldl step s) ns := by
  induction ms generalizing s with
  | nil => rfl
  | cons m ms ih => simp [seen, ih]

theorem seen_concat (look : σ → μ → Option β) (s : σ) (ms : List μ) (m : μ) :
    seen step look s (ms ++ [m]) = seen step look s ms ++ (look (ms.foldl step s) m).toList := by
  rw [seen_append, seen, seen, List.append_nil]

/-- What is picked out of a history is seen by a closer look. -/
theorem filterMap_seen {γ : Type} (look : σ → μ → Option β) (pick : β → Option γ)
    (s : σ) (ms : List μ) :
    (seen step look s ms).filterMap pick = seen step (fun s m => (look s m).bind pick) s ms := by
  induction ms generalizing s with
  | nil => rfl
  | cons m ms ih =>
    rw [seen, seen, List.filterMap_append, ih]
    cases look s m with
    | none => rfl
    | some b => cases h : pick b <;> simp [h]

/-- An entry of a history to which one entry was added is the new one or an old one. -/
theorem concat_eq_append_cons {h before after : List β} {c d : β}
    (heq : h ++ [c] = before ++ d :: after) :
    (h = before ∧ c = d ∧ after = []) ∨
      ∃ rest, h = before ++ d :: rest ∧ after = rest ++ [c] := by
  rcases List.eq_nil_or_concat after with rfl | ⟨rest, e, rfl⟩
  · obtain ⟨hinit, hlast⟩ := List.append_inj' heq rfl
    exact .inl ⟨hinit, (List.cons.inj hlast).1, rfl⟩
  · have hsplit : h ++ [c] = (before ++ d :: rest) ++ [e] := by
      rw [heq]
      simp
    obtain ⟨hinit, hlast⟩ := List.append_inj' hsplit rfl
    obtain rfl := (List.cons.inj hlast).1
    exact .inr ⟨rest, hinit, by simp⟩

/-- What holds at first and survives every step holds after every run. -/
theorem foldl_induction {P : List μ → σ → Prop} {s : σ} (start : P [] s)
    (next : ∀ ms m, P ms (ms.foldl step s) → P (ms ++ [m]) (step (ms.foldl step s) m))
    (ms : List μ) : P ms (ms.foldl step s) := by
  induction ms using List.reverseRecOn with
  | nil => exact start
  | append_singleton ms m ih =>
    rw [List.foldl_append]
    exact next ms m ih

end Dialogue
