/-
What a call comes to.

The calls in progress end in the opposite order to their beginning, and so do the steps that keep a
one-shot outside the slots.  **However a step ends, it leaves both as it found them**, `leads_step`,
by induction on the depth of calls.  So what is on top when a body has ended, by its return or by a
panic, is the call that the body ran in: its captures are the ones released, and the rest of the
rack stays as the body left it.
-/
import Dialogue.OneShot.Script
import Dialogue.Proofs.OneShot.Custody
import Dialogue.Proofs.Script

namespace Dialogue.OneShot

variable {n : Nat} {α : Type}

open Dialogue.Rack (Takes)
open Dialogue.Play (Leads leads_pure leads_throw leads_emit leads_bind leads_look leads_answer
  leads_aside leads_inside leads_ensure start_bind)

/-! ### Stacks -/

/-- The same calls are in progress, and the same one-shots are kept outside the slots. -/
structure SameStacks (w w' : World n) : Prop where
  running : w'.rack.running = w.rack.running
  loose : w'.rack.loose = w.rack.loose

/-- The same calls are in progress, and the same one-shots are kept below the innermost one. -/
structure SameBelow (w w' : World n) : Prop where
  running : w'.rack.running = w.rack.running
  loose : w'.rack.loose.tail = w.rack.loose.tail

instance : IsPreorder (World n) SameStacks where
  refl _ := ⟨rfl, rfl⟩
  trans _ _ _ h k := ⟨k.running.trans h.running, k.loose.trans h.loose⟩

instance : IsPreorder (World n) SameBelow where
  refl _ := ⟨rfl, rfl⟩
  trans _ _ _ h k := ⟨k.running.trans h.running, k.loose.trans h.loose⟩

theorem stacks_finish (r : Rack n) :
    r.finish.running = r.running.tail ∧ r.finish.loose = r.loose := by
  unfold Rack.finish
  split <;> rename_i h <;> rw [h] <;> exact ⟨rfl, rfl⟩

theorem stacks_dropLoose (r : Rack n) :
    r.dropLoose.running = r.running ∧ r.dropLoose.loose = r.loose.tail := by
  unfold Rack.dropLoose
  split <;> rename_i h <;> rw [h] <;> exact ⟨rfl, rfl⟩

variable {inner : List (Step n) → Play n (List (Report Answer Event))}
  {s : Scene (World n) Event}

theorem leads_runBodyOf (hinner : ∀ body s, Leads SameStacks (inner body) s) (c : Callable) :
    Leads SameStacks (runBodyOf inner c) s := by
  refine leads_look ?_
  split
  · refine leads_bind (leads_aside (hinner _)) ?_
    intro reports s'' _
    exact leads_emit _
  · exact leads_pure ()

/-- A call ends on top of those that were in progress around it. -/
theorem leads_conduct (hinner : ∀ body s, Leads SameStacks (inner body) s) (c : Callable)
    (arg : Int64) :
    Leads (fun w w' => w'.rack.running = w.rack.running.tail ∧ w'.rack.loose = w.rack.loose)
      (conduct inner c arg) s := by
  unfold conduct ensureOnRack
  refine leads_ensure (leads_answer (fun _ => c.value arg) (leads_runBodyOf hinner c)) ?_
  intro w h
  obtain ⟨hrunning, hloose⟩ := stacks_finish w.rack
  exact ⟨hrunning.trans (congrArg List.tail h.running), hloose.trans h.loose⟩

theorem start_call_of_none {w : World n} {p : Place n} {arg : Int64} {events : List Event}
    (h : w.rack.begin? p = none) :
    (call inner p arg).start ⟨w, events⟩ = (.ok (.error .noContinuation), ⟨w, events⟩) := by
  unfold call
  rw [start_bind, Dialogue.Play.start_operate]
  dsimp only
  rw [h]
  rfl

theorem start_call_of_some {w : World n} {p : Place n} {arg : Int64} {events : List Event}
    {c : Callable} {rack : Rack n} (h : w.rack.begin? p = some (c, rack)) :
    (call inner p arg).start ⟨w, events⟩
      = (conduct inner c arg >>= fun v => pure (.ok v)).start ⟨{ w with rack }, events⟩ := by
  unfold call
  rw [start_bind, Dialogue.Play.start_operate]
  dsimp only
  rw [h]

theorem stacks_of_begin? {r q : Rack n} {p : Place n} {c : Callable}
    (h : r.begin? p = some (c, q)) :
    q.running = c :: r.running ∧ q.loose = (r.put p (r.content p).spent).loose := by
  obtain ⟨d, _, hd⟩ := Option.map_eq_some_iff.mp h
  cases hd
  refine ⟨?_, rfl⟩
  cases p <;> rfl

/-- A call is gone when it has ended, and only the place that was called may have changed outside
the slots. -/
theorem leads_call (hinner : ∀ body s, Leads SameStacks (inner body) s) (p : Place n)
    (arg : Int64) : Leads (fun w w' => w'.rack.running = w.rack.running ∧
        (w'.rack.loose = w.rack.loose ∨ ∃ k, w'.rack.loose = (w.rack.put p k).loose))
      (call inner p arg) s := by
  obtain ⟨w, events⟩ := s
  cases h : w.rack.begin? p with
  | none =>
    unfold Leads
    rw [start_call_of_none h]
    exact ⟨rfl, .inl rfl⟩
  | some begun =>
    obtain ⟨c, rack⟩ := begun
    obtain ⟨hrunning, hloose⟩ := stacks_of_begin? h
    obtain ⟨hended, hkept⟩ := leads_conduct (s := ⟨{ w with rack }, events⟩) hinner c arg
    unfold Leads
    rw [start_call_of_some h, start_bind]
    generalize (conduct inner c arg).start ⟨{ w with rack }, events⟩ = result at hended hkept
    obtain ⟨outcome, s'⟩ := result
    rw [hrunning] at hended
    rw [hloose] at hkept
    cases outcome with
    | ok v => exact ⟨hended, .inr ⟨_, hkept⟩⟩
    | error e => exact ⟨hended, .inr ⟨_, hkept⟩⟩

theorem leads_callSlot (hinner : ∀ body s, Leads SameStacks (inner body) s) (i : Slot n)
    (arg : Int64) : Leads SameStacks (call inner (.slot i) arg) s := by
  obtain ⟨hrunning, hloose | ⟨k, hloose⟩⟩ := leads_call (s := s) hinner (.slot i) arg
  · exact ⟨hrunning, hloose⟩
  · exact ⟨hrunning, hloose⟩

theorem leads_callLoose (hinner : ∀ body s, Leads SameStacks (inner body) s) (arg : Int64) :
    Leads SameBelow (call inner .loose arg) s := by
  obtain ⟨hrunning, hloose | ⟨k, hloose⟩⟩ := leads_call (s := s) hinner .loose arg
  · exact ⟨hrunning, congrArg List.tail hloose⟩
  · refine ⟨hrunning, ?_⟩
    rw [hloose]
    rfl

theorem leads_callTimes (hinner : ∀ body s, Leads SameStacks (inner body) s) (times : Nat) :
    Leads SameBelow (callTimes inner times) s := by
  induction times generalizing s with
  | zero => exact leads_pure []
  | succ times ih =>
    refine leads_bind (leads_callLoose hinner 0) ?_
    intro answer s' _
    exact leads_answer (answer :: ·) ih

theorem leads_showCalls (hinner : ∀ body s, Leads SameStacks (inner body) s) (times : Nat) :
    Leads SameBelow (showCalls inner times) s := by
  refine leads_look ?_
  refine leads_bind (leads_callTimes hinner times) ?_
  intro calls s' _
  exact leads_answer _ (refl_of SameBelow s'.state)

/-- A step that keeps a one-shot outside the slots drops it in the end. -/
theorem leads_keeping {f : Rack n → Rack n} {m : Play n α}
    (hf : ∀ r, (f r).running = r.running ∧ (f r).loose.tail = r.loose)
    (hm : ∀ s, Leads SameBelow m s) :
    Leads SameStacks (onRack f >>= fun _ => ensureOnRack m (·.dropLoose)) s := by
  obtain ⟨hrunning, hloose⟩ := hf s.state.rack
  have hkept : Leads (fun w w' => w'.rack.running = w.rack.running ∧
    w'.rack.loose = w.rack.loose.tail)
      (ensureOnRack m (·.dropLoose))
          { s with state := { s.state with rack := f s.state.rack } } := by
    refine leads_ensure (hm _) ?_
    intro w h
    obtain ⟨hend, hdropped⟩ := stacks_dropLoose w.rack
    exact ⟨hend.trans h.running, hdropped.trans h.loose⟩
  exact ⟨hkept.1.trans hrunning, hkept.2.trans hloose⟩

/-- However a step ends, it leaves the calls in progress and what is kept outside the slots. -/
theorem leads_step (hinner : ∀ body s, Leads SameStacks (inner body) s) (step : Step n)
    (s : Scene (World n) Event) : Leads SameStacks (perform inner step) s := by
  cases step with
  | new i name recipe body =>
    exact leads_answer (fun _ => Answer.made recipe.layout.isInline) ⟨rfl, rfl⟩
  | call i arg => exact leads_answer _ (leads_callSlot hinner i arg)
  | callOnce i arg =>
    refine leads_keeping (fun r => ⟨rfl, rfl⟩) ?_
    intro s'
    exact leads_answer _ (leads_callLoose hinner arg)
  | fromFn recipe times =>
    refine leads_keeping (fun r => ⟨rfl, rfl⟩) ?_
    intro s'
    exact leads_showCalls hinner times
  | move i j => exact leads_answer (fun _ => Answer.done) ⟨rfl, rfl⟩
  | swap i j => exact leads_answer (fun _ => Answer.done) ⟨rfl, rfl⟩
  | drop i => exact leads_answer (fun _ => Answer.done) ⟨rfl, rfl⟩
  | inspect i => exact leads_answer _ (refl_of SameStacks s.state)
  | panic message => exact leads_throw _
  | unknown => exact leads_pure _

theorem leads_runBody (fuel : Nat) (body : List (Step n)) (s : Scene (World n) Event) :
    Leads SameStacks (runBody fuel body) s := by
  induction fuel generalizing body s with
  | zero =>
    cases body with
    | nil => exact leads_pure []
    | cons step steps => exact leads_throw _
  | succ fuel ih =>
    rw [runBody_succ]
    exact leads_inside (leads_step ih) body

/-! ### From the beginning of a call to its end -/

/-- The body runs, and a panic in it is passed on. -/
theorem start_runBodyOf (hnil : ∀ s, (inner []).start s = (.ok [], s)) (w : World n)
    (c : Callable) (events : List Event) : ∃ told, (runBodyOf inner c).start ⟨w, events⟩
      = (((inner (w.bodyOf c)).start ⟨w, []⟩).1.map fun _ => (),
          ⟨((inner (w.bodyOf c)).start ⟨w, []⟩).2.state, told⟩) := by
  unfold runBodyOf
  rw [start_bind, Dialogue.Play.start_look]
  dsimp only
  generalize hbody : w.bodyOf c = body
  cases hname : c.name with
  | none =>
    -- what names no body has none
    rw [World.bodyOf, hname] at hbody
    subst hbody
    rw [hnil]
    exact ⟨events, rfl⟩
  | some name =>
    cases body with
    | nil =>
      rw [hnil]
      exact ⟨events, rfl⟩
    | cons step steps =>
      dsimp only
      rw [start_bind, Dialogue.Play.start_aside]
      generalize (inner (step :: steps)).start ⟨w, []⟩ = result
      obtain ⟨outcome, s'⟩ := result
      cases outcome with
      | ok reports => exact ⟨events ++ [.ran name reports], rfl⟩
      | error e => exact ⟨events, rfl⟩

/-- A call has ended: of all that its body left, only its own captures are touched, and they are
released. -/
structure Ends (before : Rack n) (c : Callable) (left after : Rack n) : Prop where
  content : ∀ p, after.content p = left.content p
  held : left.running = c :: before.running
  running : after.running = before.running
  released : after.released = c :: left.released

/-- What a call comes to.  In an empty place it is refused, and nothing happens.  Otherwise the body
of what was held there starts with the place empty, and the call answers or is torn down as the body
does; in either case it has then ended. -/
structure IsCall (inner : List (Step n) → Play n (List (Report Answer Event))) (p : Place n)
    (arg : Int64) (s : Scene (World n) Event) : Prop where
  refused : (s.state.rack.content p).payload? = none →
    (call inner p arg).start s = (.ok (.error .noContinuation), s)
  runs : ∀ c, (s.state.rack.content p).payload? = some c →
    ∃ q, Takes s.state.rack p c q ∧
      let body := (inner (s.state.bodyOf c)).start ⟨{ s.state with rack := q }, []⟩
      ((call inner p arg).start s).1 = body.1.map (fun _ => .ok (c.value arg)) ∧
      Ends s.state.rack c body.2.state.rack ((call inner p arg).start s).2.state.rack ∧
      ((call inner p arg).start s).2.state.bodies = body.2.state.bodies

/-- A call that answers does so with a value exactly if there was a callable. -/
theorem IsCall.answers {p : Place n} {arg : Int64} (h : IsCall inner p arg s)
    {answer : Except Refusal Int64} (hanswer : ((call inner p arg).start s).1 = .ok answer) :
    (∃ v, answer = .ok v) ↔ (s.state.rack.content p).payload?.isSome := by
  cases hheld : (s.state.rack.content p).payload? with
  | none =>
    rw [h.refused hheld] at hanswer
    cases hanswer
    simp
  | some c =>
    obtain ⟨q, -, hbody, -⟩ := h.runs c hheld
    rw [hbody] at hanswer
    generalize (inner (s.state.bodyOf c)).start ⟨{ s.state with rack := q }, []⟩ = body
      at hanswer
    obtain ⟨outcome, s'⟩ := body
    cases outcome with
    | ok reports =>
      cases hanswer
      simp
    | error e => cases hanswer

/-- The call has ended when its body has. -/
theorem start_conduct (hnil : ∀ s, (inner []).start s = (.ok [], s)) (w : World n) (c : Callable)
    (arg : Int64) (events : List Event) :
    ∃ told, (conduct inner c arg).start ⟨w, events⟩
      = (((inner (w.bodyOf c)).start ⟨w, []⟩).1.map fun _ => c.value arg,
          ⟨{ ((inner (w.bodyOf c)).start ⟨w, []⟩).2.state with
            rack := ((inner (w.bodyOf c)).start ⟨w, []⟩).2.state.rack.finish }, told⟩) := by
  obtain ⟨told, hbody⟩ := start_runBodyOf hnil w c events
  refine ⟨told, ?_⟩
  unfold conduct ensureOnRack
  rw [Dialogue.Play.start_ensure, start_bind, hbody]
  generalize (inner (w.bodyOf c)).start ⟨w, []⟩ = body
  obtain ⟨outcome, s'⟩ := body
  cases outcome <;> rfl

theorem ends_finish {before left : Rack n} {c : Callable} (h : left.running = c :: before.running) :
    Ends before c left left.finish := by
  refine ⟨left.content_finish, h, ?_, ?_⟩
  · rw [(stacks_finish left).1, h]
    rfl
  · rw [Rack.finish, h]

theorem isCall (hnil : ∀ s, (inner []).start s = (.ok [], s))
    (hinner : ∀ body s, Leads SameStacks (inner body) s) (p : Place n) (arg : Int64)
    (s : Scene (World n) Event) : IsCall inner p arg s := by
  obtain ⟨w, events⟩ := s
  refine ⟨?_, ?_⟩
  · intro hheld
    exact start_call_of_none (Option.map_eq_none_iff.mpr hheld)
  · intro c hheld
    obtain ⟨q, hbegin⟩ : ∃ q, w.rack.begin? p = some (c, q) :=
      ⟨_, congrArg (Option.map _) hheld⟩
    have htakes := Rack.takes_of_begin? hbegin
    refine ⟨q, htakes, ?_⟩
    obtain ⟨told, hconduct⟩ := start_conduct hnil { w with rack := q } c arg events
    have hheld' : ((inner (w.bodyOf c)).start ⟨{ w with rack := q }, []⟩).2.state.rack.running
        = c :: w.rack.running :=
      (hinner (w.bodyOf c) ⟨{ w with rack := q }, []⟩).running.trans htakes.running
    rw [start_call_of_some hbegin, start_bind, hconduct]
    have hbodies : World.bodyOf { w with rack := q } c = w.bodyOf c := rfl
    rw [hbodies]
    generalize (inner (w.bodyOf c)).start ⟨{ w with rack := q }, []⟩ = body at hheld'
    obtain ⟨outcome, s'⟩ := body
    cases outcome with
    | ok reports => exact ⟨rfl, ends_finish hheld', rfl⟩
    | error e => exact ⟨rfl, ends_finish hheld', rfl⟩

/-- Every call that a script makes, at any depth, from whatever state. -/
theorem isCall_runBody (fuel : Nat) (p : Place n) (arg : Int64) (s : Scene (World n) Event) :
    IsCall (runBody fuel) p arg s := by
  refine isCall ?_ (leads_runBody fuel) p arg s
  intro s
  rw [runBody_nil]
  rfl

end Dialogue.OneShot
