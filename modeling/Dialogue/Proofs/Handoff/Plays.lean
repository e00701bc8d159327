/-
A script does nothing to an exchange that a run does not do.

Each step asks the exchange for one operation, except that running jobs runs the steps of callbacks
as well, nested to any depth.  A panic, of a step or of a callback, leaves out operations that were
still to come; what was done stays done.  So whatever is shown of all runs holds of every script.
-/
import Dialogue.Proofs.Handoff.Run
import Dialogue.Proofs.Script

namespace Dialogue.Handoff

variable {α β : Type}

open Dialogue.Play (Leads leads_pure leads_throw leads_emit leads_bind leads_look leads_answer
  leads_aside leads_inside leads_repeated)

/-- Operations take the exchange from one world to the other. -/
def Reaches (before after : World α) : Prop :=
  ∃ ops, after.exchange = before.exchange.after ops

instance : IsPreorder (World α) Reaches where
  refl w := ⟨[], rfl⟩
  trans v w u := by
    rintro ⟨ops, hw⟩ ⟨more, hu⟩
    exact ⟨ops ++ more, by rw [hu, hw, Exchange.after_append]⟩

variable {s : Scene (World α) (Event α)}

theorem reaches_step {w w' : World α} (op : Op α (Callback α) String)
    (h : w'.exchange = w.exchange.step op) : Reaches w w' :=
  ⟨[op], h⟩

/-! ### One operation -/

/-- The step of a handle finds the queue that the operation is performed on. -/
theorem leads_withHandle {h : Int} {f : Nat → Play α (Answer α)}
    (hf : ∀ q, s.state.exchange.handles.get? h = some q → Leads Reaches (f q) s) :
    Leads Reaches (withHandle h f) s := by
  refine leads_look ?_
  split
  · exact leads_pure _
  · next q hq => exact hf q hq

theorem leads_asking
    {f : Exchange α (Callback α) String → β × Exchange α (Callback α) String}
    (op : Op α (Callback α) String) (h : (f s.state.exchange).2 = s.state.exchange.step op) :
    Leads Reaches (asking f) s :=
  reaches_step op h

theorem leads_posting
    {f : Exchange α (Callback α) String → Bool × Exchange α (Callback α) String}
    (op : Op α (Callback α) String) (h : (f s.state.exchange).2 = s.state.exchange.step op) :
    Leads Reaches (do posting f; return .done : Play α (Answer α)) s := by
  refine leads_answer (fun _ => Answer.done) ?_
  refine leads_bind (reaches_step op h) ?_
  intro accepted s' _
  cases accepted with
  | true => exact leads_pure ()
  | false => exact leads_throw _

/-! ### Waits -/

variable {jobs : Nat} {inner : List (Step α) → Play α (List (Report (Answer α) (Event α)))}

theorem leads_asyncPop (h name : Int) (body : List (Step α)) :
    Leads Reaches (perform jobs inner (.asyncPop h name body)) s := by
  refine leads_withHandle ?_
  intro q hq
  refine leads_bind (leads_asking (.asyncPop h ⟨name, body⟩) ?_) ?_
  · simp only [Exchange.step, Exchange.via, hq]
    cases s.state.exchange.asyncPop? q ⟨name, body⟩ with
    | none => rfl
    | some r => rfl
  · rintro (_ | ⟨t, accepted⟩) s' _
    · exact leads_pure _
    · cases accepted with
      | false =>
        refine leads_bind (leads_throw _) ?_
        intro _ s'' hs
        cases hs
      | true =>
        -- the name of the callback is noted; the exchange stays
        exact leads_answer _ ⟨[], rfl⟩

theorem leads_pop (h id : Int) : Leads Reaches (perform jobs inner (.pop h id)) s := by
  refine leads_withHandle ?_
  intro q hq
  refine leads_answer _ (leads_asking (.pop h id) ?_)
  simp only [Exchange.step, Exchange.via, hq]
  cases s.state.exchange.pop? id q with
  | none => rfl
  | some y => rfl

theorem leads_poll (id : Int) (waker : String) :
    Leads Reaches (perform jobs inner (.poll id waker)) s := by
  refine leads_look ?_
  split
  · exact leads_pure _
  · exact leads_throw _
  · next q t hp =>
    refine leads_answer _ (leads_asking (.poll id waker) ?_)
    simp only [Exchange.step, hp]

theorem leads_dropPop (id : Int) : Leads Reaches (perform jobs inner (.dropPop id)) s := by
  refine leads_look ?_
  split
  · exact leads_pure _
  · exact leads_answer _ (reaches_step (.dropPop id) rfl)

theorem leads_withdraw (h name : Int) :
    Leads Reaches (perform jobs inner (.withdraw h name)) s := by
  refine leads_withHandle ?_
  intro q hq
  refine leads_look ?_
  split
  · exact leads_pure _
  · next t _ =>
    refine leads_answer _ (leads_asking (.withdraw h t) ?_)
    simp only [Exchange.step, Exchange.via, hq]

/-! ### Steps that run others -/

theorem leads_runJob (hinner : ∀ body s, Leads Reaches (inner body) s) :
    Leads Reaches (runJob inner) s := by
  refine leads_bind (leads_asking .runJob ?_) ?_
  · dsimp only [Exchange.step]
    cases s.state.exchange.nextJob? with
    | none => rfl
    | some taken => rfl
  · rintro (_ | _ | ⟨callback, given⟩) s' _
    · exact leads_pure _
    · exact leads_pure _
    · refine leads_bind (leads_aside (hinner callback.body)) ?_
      intro reports s'' _
      exact leads_answer _ (leads_emit _)

theorem leads_perform (jobs : Nat) (hinner : ∀ body s, Leads Reaches (inner body) s)
    (step : Step α) (s : Scene (World α) (Event α)) :
    Leads Reaches (perform jobs inner step) s := by
  cases step with
  | new h => exact leads_posting (.create h) rfl
  | clone h target =>
    refine leads_withHandle ?_
    intro q hq
    refine leads_posting (.clone h target) ?_
    simp only [Exchange.step, Exchange.via, hq]
  | drop h =>
    refine leads_withHandle ?_
    intro q _
    exact leads_posting (.drop h) rfl
  | push h value =>
    refine leads_withHandle ?_
    intro q hq
    refine leads_posting (.push h value) ?_
    simp only [Exchange.step, Exchange.via, hq]
  | stop h =>
    refine leads_withHandle ?_
    intro q hq
    refine leads_posting (.stop h) ?_
    simp only [Exchange.step, Exchange.via, hq]
  | debug h =>
    refine leads_withHandle ?_
    intro q _
    exact leads_answer _ (refl_of Reaches s.state)
  | asyncPop h name body => exact leads_asyncPop h name body
  | pop h id => exact leads_pop h id
  | poll id waker => exact leads_poll id waker
  | dropPop id => exact leads_dropPop id
  | withdraw h name => exact leads_withdraw h name
  | runOne => exact leads_answer _ (leads_runJob hinner)
  | run => exact leads_answer _ (leads_repeated (fun _ => leads_runJob hinner) jobs)
  | shutdown =>
    exact leads_answer _ (reaches_step (.executor s.state.exchange.jobs.shutdown) rfl)
  | panic message => exact leads_throw _
  | unknown => exact leads_pure _

theorem leads_runBody (jobs fuel : Nat) (body : List (Step α)) (s : Scene (World α) (Event α)) :
    Leads Reaches (runBody jobs fuel body) s := by
  induction fuel generalizing body s with
  | zero => exact leads_throw _
  | succ fuel ih => exact leads_inside (leads_perform jobs ih) body

end Dialogue.Handoff
