/-
Two scripts in step with each other.

Two scripts may differ in what they work on and still do the same.  What counts as the same is given
by three relations: one on states, one on events and one on answers.  Two steps are in lockstep if
from related scenes either both answer, with related answers, or both are torn down for the same
reason, and in each case what they leave is related again.  This is shown from the operations that a
step consists of, and from the steps it goes on to scripts, line by line.
-/
import Dialogue.Script
import Mathlib.Data.List.Forall2

namespace Dialogue

variable {σ ε α β ν ω : Type}

/-- Both answer alike, or both are interrupted for the same reason. -/
inductive Play.EndAlike (A : α → α → Prop) :
    Except Interruption α → Except Interruption α → Prop
  | answer {a a' : α} (h : A a a') : EndAlike A (.ok a) (.ok a')
  | interrupted (e : Interruption) : EndAlike A (.error e) (.error e)

/-- The states are related, and so are the events, one by one. -/
structure Scene.Alike (S : σ → σ → Prop) (E : ε → ε → Prop) (s s' : Scene σ ε) :
    Prop where
  state : S s.state s'.state
  events : List.Forall₂ E s.events s'.events

/-- The answers are related, and so are the events, one by one. -/
inductive Report.Alike (A : ν → ν → Prop) (E : ε → ε → Prop) :
    Report ν ε → Report ν ε → Prop
  | told {a a' : ν} {events events' : List ε} (answer : A a a')
      (h : List.Forall₂ E events events') : Alike A E ⟨a, events⟩ ⟨a', events'⟩

/-- Two outermost steps have ended alike, with related events, and the same is shown after them. -/
structure Line.Alike (A : ν → ν → Prop) (E : ε → ε → Prop) (l l' : Line ν ε ω) :
    Prop where
  answer : Play.EndAlike A l.answer l'.answer
  events : List.Forall₂ E l.events l'.events
  shown : l.shown = l'.shown

namespace Play

/-- From related scenes both steps end alike and leave related scenes. -/
def Lockstep (S : σ → σ → Prop) (E : ε → ε → Prop) (A : α → α → Prop)
    (m m' : Play σ ε α) : Prop :=
  ∀ s s', Scene.Alike S E s s' →
    EndAlike A (m.start s).1 (m'.start s').1 ∧ Scene.Alike S E (m.start s).2 (m'.start s').2

variable {S : σ → σ → Prop} {E : ε → ε → Prop} {A : α → α → Prop}
  {B : β → β → Prop}
  {m m' : Play σ ε α}

theorem lockstep_pure {a a' : α} (h : A a a') : Lockstep S E A (pure a) (pure a') :=
  fun _ _ hs => ⟨.answer h, hs⟩

theorem lockstep_throw (e : Interruption) : Lockstep S E A (throw e) (throw e) :=
  fun _ _ hs => ⟨.interrupted e, hs⟩

theorem lockstep_emit {e e' : ε} (h : E e e') :
    Lockstep S E (fun _ _ => True) (emit e) (emit e') := by
  intro s s' hs
  refine ⟨.answer trivial, hs.state, ?_⟩
  exact List.rel_append hs.events (.cons h .nil)

theorem lockstep_look {f f' : σ → α} (h : ∀ x x', S x x' → A (f x) (f' x')) :
    Lockstep S E A (look f) (look f') :=
  fun _ _ hs => ⟨.answer (h _ _ hs.state), hs⟩

theorem lockstep_change {f f' : σ → σ} (h : ∀ x x', S x x' → S (f x) (f' x')) :
    Lockstep S E (fun _ _ => True) (change f) (change f') :=
  fun _ _ hs => ⟨.answer trivial, h _ _ hs.state, hs.events⟩

theorem lockstep_operate {f f' : σ → α × σ}
    (h : ∀ x x', S x x' → A (f x).1 (f' x').1 ∧ S (f x).2 (f' x').2) :
    Lockstep S E A (operate f) (operate f') := by
  intro s s' hs
  obtain ⟨hanswer, hstate⟩ := h _ _ hs.state
  exact ⟨.answer hanswer, hstate, hs.events⟩

theorem lockstep_bind {f f' : α → Play σ ε β} (hm : Lockstep S E A m m')
    (hf : ∀ a a', A a a' → Lockstep S E B (f a) (f' a')) :
    Lockstep S E B (m >>= f) (m' >>= f') := by
  intro s s' hs
  obtain ⟨hend, hleft⟩ := hm s s' hs
  rw [start_bind, start_bind]
  generalize m.start s = r at hend hleft
  generalize m'.start s' = r' at hend hleft
  obtain ⟨outcome, t⟩ := r
  obtain ⟨outcome', t'⟩ := r'
  cases hend with
  | answer h => exact hf _ _ h t t' hleft
  | interrupted e => exact ⟨.interrupted e, hleft⟩

/-- Steps that only work out their answers after others. -/
theorem lockstep_answer {f f' : α → β} (hm : Lockstep S E A m m')
    (hf : ∀ a a', A a a' → B (f a) (f' a')) :
    Lockstep S E B (m >>= fun a => pure (f a)) (m' >>= fun a => pure (f' a)) :=
  lockstep_bind hm fun a a' h => lockstep_pure (hf a a' h)

/-- What is done at the end is done in both, however they end. -/
theorem lockstep_ensure {f f' : σ → σ} (hm : Lockstep S E A m m')
    (hf : ∀ x x', S x x' → S (f x) (f' x')) : Lockstep S E A (ensure m f) (ensure m' f') := by
  intro s s' hs
  obtain ⟨hend, hleft⟩ := hm s s' hs
  exact ⟨hend, hf _ _ hleft.state, hleft.events⟩

theorem lockstep_aside (hm : Lockstep S E A m m') : Lockstep S E A (aside m) (aside m') := by
  intro s s' hs
  obtain ⟨hend, hleft⟩ := hm { s with events := [] } { s' with events := [] }
    ⟨hs.state, .nil⟩
  exact ⟨hend, hleft.state, hs.events⟩

theorem lockstep_report (hm : Lockstep S E A m m') :
    Lockstep S E (Report.Alike A E) (report m) (report m') := by
  unfold report
  refine lockstep_aside (lockstep_bind hm ?_)
  intro a a' ha s s' hs
  exact ⟨.answer (.told ha hs.events), hs⟩

section

variable {Step : Type} {R : Step → Step → Prop} {N : ν → ν → Prop}
  {perform : Step → Play σ ε ν} {steps steps' : List Step}

theorem lockstep_inside
    (h : ∀ step step', R step step' → Lockstep S E N (perform step) (perform step'))
    (hsteps : List.Forall₂ R steps steps') :
    Lockstep S E (List.Forall₂ (Report.Alike N E)) (inside perform steps)
      (inside perform steps') := by
  unfold inside
  induction hsteps with
  | nil => exact lockstep_pure .nil
  | cons hstep _ ih =>
    rw [List.mapM_cons, List.mapM_cons]
    refine lockstep_bind (lockstep_report (h _ _ hstep)) ?_
    intro report report' hreport
    exact lockstep_answer ih fun _ _ hreports => .cons hreport hreports

/-- Scripts whose steps are in lockstep are so line by line, as long as related states look the
same. -/
theorem alike_script {view : σ → σ → ω}
    (hview : ∀ x x' y y', S x x' → S y y' → view x y = view x' y')
    (h : ∀ step step', R step step' → Lockstep S E N (perform step) (perform step'))
    (hsteps : List.Forall₂ R steps steps') {x x' : σ} (hx : S x x') :
    List.Forall₂ (Line.Alike N E) (script perform view x steps)
      (script perform view x' steps') := by
  induction hsteps generalizing x x' with
  | nil => exact .nil
  | cons hstep _ ih =>
    obtain ⟨hend, hleft⟩ := h _ _ hstep ⟨x, []⟩ ⟨x', []⟩ ⟨hx, .nil⟩
    exact .cons ⟨hend, hleft.events, hview _ _ _ _ hx hleft.state⟩ (ih hleft.state)

end

end Play

end Dialogue
