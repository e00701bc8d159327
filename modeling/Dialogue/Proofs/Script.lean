/-
Where a step of a script leads.

A step may answer or be torn down, run nested steps and repeat itself, and in each case it hands
back a state.  What relates that state to the one before, whatever the outcome, is shown from the
operations that the step consists of, for every relation that can be composed.
-/
import Dialogue.Script
import Mathlib.Order.Defs.Unbundled

namespace Dialogue.Play

variable {σ ε ν α β : Type}

/-- However the step ends, the state that it leaves is related to the one before. -/
def Leads (R : σ → σ → Prop) (m : Play σ ε α) (s : Scene σ ε) : Prop :=
  R s.state (m.start s).2.state

variable {R : σ → σ → Prop} {s : Scene σ ε}

theorem leads_aside {m : Play σ ε α} (h : ∀ s, Leads R m s) : Leads R (aside m) s :=
  h { s with events := [] }

/-- What is done at the end is done however the step ends. -/
theorem leads_ensure {S : σ → σ → Prop} {m : Play σ ε α} {f : σ → σ} (h : Leads R m s)
    (hf : ∀ x, R s.state x → S s.state (f x)) : Leads S (ensure m f) s :=
  hf _ h

theorem leads_arranged {f : List ε → List ε} {m : Play σ ε α} (hm : Leads R m s) :
    Leads R (arranged f m) s :=
  hm

/-- What a step looks up is there when it goes on. -/
theorem leads_look {g : σ → β} {f : β → Play σ ε α} (h : Leads R (f (g s.state)) s) :
    Leads R (look g >>= f) s :=
  h

variable [IsPreorder σ R]

theorem leads_pure (a : α) : Leads R (pure a : Play σ ε α) s :=
  refl_of R s.state

theorem leads_throw (e : Interruption) : Leads R (throw e : Play σ ε α) s :=
  refl_of R s.state

theorem leads_emit (e : ε) : Leads R (emit e) s :=
  refl_of R s.state

theorem leads_bind {m : Play σ ε α} {f : α → Play σ ε β} (hm : Leads R m s)
    (hf : ∀ a s', m.start s = (.ok a, s') → Leads R (f a) s') : Leads R (m >>= f) s := by
  unfold Leads at hm ⊢
  rw [start_bind]
  generalize hr : m.start s = r at hm hf
  obtain ⟨result, s'⟩ := r
  cases result with
  | ok a => exact trans_of R hm (hf a s' rfl)
  | error e => exact hm

/-- A step that only works out its answer after another. -/
theorem leads_answer {m : Play σ ε α} (f : α → β) (hm : Leads R m s) :
    Leads R (m >>= fun a => pure (f a)) s := by
  refine leads_bind hm ?_
  intro a s' _
  exact leads_pure (f a)

theorem leads_report {m : Play σ ε ν} (h : ∀ s, Leads R m s) : Leads R (report m) s := by
  refine leads_aside ?_
  intro s
  refine leads_bind (h s) ?_
  intro a s' _
  exact refl_of R s'.state

theorem leads_inside {Step : Type} {perform : Step → Play σ ε ν}
    (h : ∀ step s, Leads R (perform step) s) (steps : List Step) :
    Leads R (inside perform steps) s := by
  unfold inside
  induction steps generalizing s with
  | nil => exact leads_pure []
  | cons step steps ih =>
    rw [List.mapM_cons]
    refine leads_bind (leads_report (h step)) ?_
    intro a s' _
    exact leads_answer (a :: ·) ih

/-- The same for each, one after the other. -/
theorem leads_forM {f : β → Play σ ε PUnit} (h : ∀ b s, Leads R (f b) s) (bs : List β) :
    Leads R (bs.forM f) s := by
  induction bs generalizing s with
  | nil => exact leads_pure _
  | cons b bs ih => exact leads_bind (h b s) fun _ _ _ => ih

theorem leads_repeated {attempt : Play σ ε Bool} (h : ∀ s, Leads R attempt s) (n : Nat) :
    Leads R (repeated attempt n) s := by
  induction n generalizing s with
  | zero => exact leads_throw .outOfFuel
  | succ n ih =>
    refine leads_bind (h s) ?_
    intro again s' _
    cases again with
    | false => exact leads_pure 0
    | true => exact leads_answer (· + 1) ih

/-! ### Steps that answer -/

/-- If one step after another has answered, so has the first. -/
theorem exists_of_bind {m : Play σ ε α} {f : α → Play σ ε β} {b : β}
    (h : ((m >>= f).start s).1 = .ok b) :
    ∃ a s', m.start s = (.ok a, s') ∧ ((f a).start s').1 = .ok b := by
  rw [start_bind] at h
  generalize m.start s = r at h
  obtain ⟨outcome, s'⟩ := r
  cases outcome with
  | ok a => exact ⟨a, s', rfl, h⟩
  | error e => cases h

/-! ### Steps that emit nothing -/

/-- However the step ends, it emits no event. -/
def IsSilent (m : Play σ ε α) : Prop :=
  ∀ s, (m.start s).2.events = s.events

namespace IsSilent

theorem pure (a : α) : IsSilent (pure a : Play σ ε α) :=
  fun _ => rfl

theorem throw (e : Interruption) : IsSilent (throw e : Play σ ε α) :=
  fun _ => rfl

theorem look (f : σ → α) : IsSilent (look f : Play σ ε α) :=
  fun _ => rfl

theorem change (f : σ → σ) : IsSilent (change f : Play σ ε Unit) :=
  fun _ => rfl

theorem operate (f : σ → α × σ) : IsSilent (operate f : Play σ ε α) :=
  fun _ => rfl

theorem bind {m : Play σ ε α} {f : α → Play σ ε β} (hm : IsSilent m)
    (hf : ∀ a, IsSilent (f a)) : IsSilent (m >>= f) := by
  intro s
  have hfirst := hm s
  rw [start_bind]
  generalize m.start s = r at hfirst
  obtain ⟨result, s'⟩ := r
  cases result with
  | ok a => exact (hf a s').trans hfirst
  | error e => exact hfirst

/-- A step that only works out its answer after another. -/
theorem answer {m : Play σ ε α} (f : α → β) (hm : IsSilent m) :
    IsSilent (m >>= fun a => Pure.pure (f a)) :=
  .bind hm fun a => .pure (f a)

end IsSilent

end Dialogue.Play
