/-
Scripts run the agenda.

A step of a script does what its tasks do, one after the other, and what the callables' bodies do is
among them.  If it answers, the agenda is what it was below the step; if a panic tears it down, the
agenda is unwound.  `Plays` says this for every agenda below, so that steps can be put one after the
other.  What holds at every moment of the agenda then holds of every script, at every depth.
-/
import Dialogue.Proofs.OneShot.Agenda
import Dialogue.Proofs.OneShot.Calls

namespace Dialogue.OneShot

variable {n : Nat} {α β : Type}

open Dialogue.Play (look aside inside report start_bind start_look start_ensure start_aside)

/-- What is left of the agenda below a step, by how the step ended. -/
def left (outcome : Except Interruption α) (rest : List (Task n)) : List (Task n) :=
  match outcome with
  | .ok _ => rest
  | .error _ => unwind rest

/-- The step came to an end within the bound on the depth of calls. -/
def IsEnd (outcome : Except Interruption α) : Prop :=
  ∀ e, outcome = .error e → e ≠ .outOfFuel

/-- The step does what its tasks do.  Nothing is said of a step that does not come to an end. -/
def Plays (m : Play n α) (w : World n) (tasks : List (Task n)) : Prop :=
  ∀ events outcome s, m.start ⟨w, events⟩ = (outcome, s) → IsEnd outcome →
    ∀ rest, ∃ k, Machine.after ⟨w, tasks ++ rest⟩ k = ⟨s.state, left outcome rest⟩

/-! ### Unwinding -/

theorem unwind_steps (steps : List (Step n)) (rest : List (Task n)) :
    unwind (steps.map .step ++ rest) = unwind rest := by
  induction steps with
  | nil => rfl
  | cons s steps ih => exact ih

theorem unwind_calls (times : Nat) (p : Place n) (rest : List (Task n)) :
    unwind (List.replicate times (.call p) ++ rest) = unwind rest := by
  induction times with
  | zero => rfl
  | succ times ih => exact ih

/-! ### Ways of putting steps together -/

section

variable {m m' : Play n α} {w w' : World n} {t : Task n} {tasks more : List (Task n)}

/-- A step that answers and leaves the world alone. -/
theorem plays_quiet (h : ∀ events, ∃ a told, m.start ⟨w, events⟩ = (.ok a, ⟨w, told⟩)) :
    Plays m w [] := by
  intro events outcome s hs _ rest
  obtain ⟨a, told, ha⟩ := h events
  rw [ha] at hs
  cases hs
  exact ⟨0, rfl⟩

theorem plays_pure (a : α) : Plays (pure a) w [] :=
  plays_quiet fun events => ⟨a, events, rfl⟩

/-- A step that reads something off the world first. -/
theorem plays_look {f : World n → β} {g : β → Play n α} (hm : Plays (g (f w)) w tasks) :
    Plays (look f >>= g) w tasks := by
  intro events outcome s hs
  rw [start_bind, start_look] at hs
  exact hm events outcome s hs

/-- What a task does at once is done, and what it puts on the agenda is played next. -/
theorem plays_begin (hrun : ∀ rest, t.run w rest = ⟨w', tasks ++ rest⟩)
    (hm : Plays m' w' tasks) (h : ∀ events, m.start ⟨w, events⟩ = m'.start ⟨w', events⟩) :
    Plays m w [t] := by
  intro events outcome s hs hfuel rest
  obtain ⟨k, hk⟩ := hm events outcome s ((h events).symm.trans hs) hfuel rest
  refine ⟨1 + k, ?_⟩
  rw [Machine.after_add]
  show Machine.after (t.run w rest) k = _
  rw [hrun, hk]

theorem plays_bind {f : α → Play n β} (hmore : ∀ rest, unwind (more ++ rest) = unwind rest)
    (hm : Plays m w tasks) (hf : ∀ a w', Plays (f a) w' more) :
    Plays (m >>= f) w (tasks ++ more) := by
  intro events outcome s hs hfuel rest
  rw [start_bind] at hs
  generalize hr : m.start ⟨w, events⟩ = r at hs
  obtain ⟨first, s'⟩ := r
  rw [List.append_assoc]
  cases first with
  | ok a =>
    obtain ⟨k, hk⟩ := hm events _ s' hr nofun (more ++ rest)
    obtain ⟨l, hl⟩ := hf a s'.state s'.events outcome s hs hfuel rest
    refine ⟨k + l, ?_⟩
    rw [Machine.after_add, hk]
    exact hl
  | error e =>
    have hfirst : IsEnd (.error e : Except Interruption α) := by
      intro e' he
      cases he
      cases hs
      exact hfuel e rfl
    obtain ⟨k, hk⟩ := hm events _ s' hr hfirst (more ++ rest)
    cases hs
    refine ⟨k, ?_⟩
    rw [hk, left, hmore]
    rfl

/-- A step that leaves the world alone after another. -/
theorem plays_then {f : α → Play n β} (hm : Plays m w tasks)
    (hf : ∀ a w', Plays (f a) w' []) : Plays (m >>= f) w tasks := by
  have h := plays_bind (fun _ => rfl) hm hf
  rwa [List.append_nil] at h

theorem plays_answer (f : α → β) (hm : Plays m w tasks) :
    Plays (m >>= fun a => pure (f a)) w tasks :=
  plays_then hm (fun a _ => plays_pure (f a))

/-- What is done at the end is done after a panic, too. -/
theorem plays_ensureOnRack {f : Rack n → Rack n}
    (hrun : ∀ w rest, t.run w rest = ⟨{ w with rack := f w.rack }, rest⟩)
    (hunwind : ∀ rest, unwind (t :: rest) = t :: unwind rest) (hm : Plays m w tasks) :
    Plays (ensureOnRack m f) w (tasks ++ [t]) := by
  intro events outcome s hs hfuel rest
  unfold ensureOnRack at hs
  rw [start_ensure] at hs
  generalize hr : m.start ⟨w, events⟩ = r at hs
  obtain ⟨first, s'⟩ := r
  cases hs
  obtain ⟨k, hk⟩ := hm events _ s' hr hfuel (t :: rest)
  refine ⟨k + 1, ?_⟩
  rw [List.append_assoc, Machine.after_add, List.singleton_append, hk]
  have hleft : left first (t :: rest) = t :: left first rest := by
    cases first with
    | ok a => rfl
    | error e => exact hunwind rest
  rw [hleft]
  exact hrun s'.state (left first rest)

theorem plays_aside (hm : Plays m w tasks) : Plays (aside m) w tasks := by
  intro events outcome s hs hfuel rest
  rw [start_aside] at hs
  generalize hr : m.start ⟨w, []⟩ = r at hs
  obtain ⟨first, s'⟩ := r
  cases hs
  exact hm [] _ s' hr hfuel rest

theorem plays_report (hm : Plays m w tasks) : Plays (report m) w tasks := by
  unfold Dialogue.Play.report
  refine plays_aside ?_
  exact plays_then hm (fun a w' => plays_quiet fun told => ⟨⟨a, told⟩, told, rfl⟩)

theorem plays_inside {perform : Step n → Play n Answer}
    (h : ∀ s w, Plays (perform s) w [.step s]) (steps : List (Step n)) :
    Plays (inside perform steps) w (steps.map .step) := by
  unfold inside
  induction steps generalizing w with
  | nil => exact plays_pure []
  | cons s steps ih =>
    rw [List.mapM_cons]
    show Plays _ w ([.step s] ++ steps.map .step)
    refine plays_bind (unwind_steps steps) (plays_report (h s w)) ?_
    intro a w'
    exact plays_answer (a :: ·) ih

end

/-! ### Calls -/

section

variable {inner : List (Step n) → Play n (List (Report Answer Event))} {w : World n}

theorem plays_runBodyOf (hinner : ∀ body w, Plays (inner body) w (body.map .step))
    (c : Callable) : Plays (runBodyOf inner c) w ((w.bodyOf c).map .step) := by
  unfold runBodyOf
  refine plays_look ?_
  generalize hbody : w.bodyOf c = body
  cases hname : c.name with
  | none =>
    -- what names no body has none
    rw [World.bodyOf, hname] at hbody
    subst hbody
    exact plays_pure ()
  | some name =>
    cases body with
    | nil => exact plays_pure ()
    | cons s steps =>
      exact plays_then (plays_aside (hinner (s :: steps) w))
        (fun reports w' => plays_quiet fun told => ⟨(), told ++ [.ran name reports], rfl⟩)

theorem plays_conduct (hinner : ∀ body w, Plays (inner body) w (body.map .step)) (c : Callable)
    (arg : Int64) : Plays (conduct inner c arg) w ((w.bodyOf c).map .step ++ [.finish]) :=
  plays_ensureOnRack (fun _ _ => rfl) (fun _ => rfl)
    (plays_answer (fun _ => c.value arg) (plays_runBodyOf hinner c))

theorem plays_call (hinner : ∀ body w, Plays (inner body) w (body.map .step)) (p : Place n)
    (arg : Int64) : Plays (call inner p arg) w [.call p] := by
  cases h : w.rack.begin? p with
  | none =>
    refine plays_begin (fun rest => run_call_of_none h) (plays_pure (.error .noContinuation)) ?_
    intro events
    exact start_call_of_none h
  | some begun =>
    obtain ⟨c, rack⟩ := begun
    refine plays_begin (fun rest => ?_) (plays_answer .ok (plays_conduct hinner c arg))
      (fun events => start_call_of_some h)
    rw [run_call_of_some h, List.append_assoc]
    rfl

theorem plays_callTimes (hinner : ∀ body w, Plays (inner body) w (body.map .step)) (times : Nat) :
    Plays (callTimes inner times) w (List.replicate times (.call .loose)) := by
  induction times generalizing w with
  | zero => exact plays_pure []
  | succ times ih =>
    show Plays _ w ([.call .loose] ++ List.replicate times (.call .loose))
    refine plays_bind (unwind_calls times .loose) (plays_call hinner .loose 0) ?_
    intro answer w'
    exact plays_answer (answer :: ·) ih

theorem plays_showCalls (hinner : ∀ body w, Plays (inner body) w (body.map .step)) (times : Nat) :
    Plays (showCalls inner times) w (List.replicate times (.call .loose)) := by
  refine plays_look (plays_then (plays_callTimes hinner times) ?_)
  intro calls w'
  exact plays_look (plays_pure _)

/-! ### Every step -/

theorem plays_step (hinner : ∀ body w, Plays (inner body) w (body.map .step)) (s : Step n)
    (w : World n) : Plays (perform inner s) w [.step s] := by
  cases s with
  | new i name recipe body =>
    exact plays_begin (fun _ => rfl) (plays_pure _) (fun _ => rfl)
  | call i arg =>
    exact plays_begin (fun _ => rfl) (plays_answer .called (plays_call hinner (.slot i) arg))
      (fun _ => rfl)
  | callOnce i arg =>
    exact plays_begin (fun _ => rfl)
      (plays_ensureOnRack (fun _ _ => rfl) (fun _ => rfl)
        (plays_answer .called (plays_call hinner .loose arg)))
      (fun _ => rfl)
  | fromFn recipe times =>
    exact plays_begin (fun _ => rfl)
      (plays_ensureOnRack (fun _ _ => rfl) (fun _ => rfl) (plays_showCalls hinner times))
      (fun _ => rfl)
  | move i j => exact plays_begin (fun _ => rfl) (plays_pure _) (fun _ => rfl)
  | swap i j => exact plays_begin (fun _ => rfl) (plays_pure _) (fun _ => rfl)
  | drop i => exact plays_begin (fun _ => rfl) (plays_pure _) (fun _ => rfl)
  | inspect i =>
    let k := w.rack.content (.slot i)
    exact plays_begin (fun _ => rfl) (plays_pure (.inspected k.isEmpty k.isInline k.text))
      (fun _ => rfl)
  | panic message =>
    intro events outcome s hs _ rest
    cases hs
    exact ⟨1, rfl⟩
  | unknown => exact plays_begin (fun _ => rfl) (plays_pure _) (fun _ => rfl)

theorem plays_runBody (fuel : Nat) (body : List (Step n)) (w : World n) :
    Plays (runBody fuel body) w (body.map .step) := by
  induction fuel generalizing body w with
  | zero =>
    cases body with
    | nil => exact plays_pure []
    | cons step steps =>
      intro events outcome s hs hend
      cases hs
      exact absurd rfl (hend _ rfl)
  | succ fuel ih =>
    rw [runBody_succ]
    exact plays_inside (plays_step ih) body

end

/-! ### Scripts -/

/-- The tasks of a script. -/
def tasksOf (steps : List (Step n)) : List (Task n) :=
  steps.flatMap fun s => [.step s, .line]

/-- An empty rack, and the steps of a script. -/
def Machine.ofScript (steps : List (Step n)) : Machine n :=
  ⟨{}, tasksOf steps⟩

/-- After `k` ticks the first `j` steps have ended: the others are on the agenda, the slots are as
shown last, what was released is what was shown, and no call is in progress that was not before. -/
structure Shows (m : Machine n) (lines : List (Line Answer Event View)) (steps : List (Step n))
    (j k : Nat) : Prop where
  rest : (m.after k).agenda = tasksOf (steps.drop j)
  idle : SameStacks m.world (m.after k).world
  full : (m.after k).world.rack.full
    = ((lines.take j).getLast?.map (·.shown.full)).getD m.world.rack.full
  released : (m.after k).world.rack.released.reverse.map (·.tag?)
    = m.world.rack.released.reverse.map (·.tag?) ++ (lines.take j).flatMap (·.shown.released)

/-- The view of a step shows what was released during it. -/
theorem released_view {w w' : World n} (h : w.rack.released <:+ w'.rack.released) :
    w'.rack.released.reverse.map (·.tag?)
      = w.rack.released.reverse.map (·.tag?) ++ (w.view w').released := by
  obtain ⟨news, hnews⟩ := h
  unfold World.view
  rw [← hnews]
  simp

theorem shows_start (m : Machine n) (lines : List (Line Answer Event View)) {steps : List (Step n)}
    (h : m.agenda = tasksOf steps) : Shows m lines steps 0 0 :=
  ⟨h, refl_of SameStacks m.world, rfl, (List.append_nil _).symm⟩

/-- The first step of a script, and then the others. -/
theorem shows_succ {w w' : World n} {s : Step n} {steps : List (Step n)}
    {line : Line Answer Event View} {lines : List (Line Answer Event View)} {j k l : Nat}
    (hfirst : Machine.after ⟨w, tasksOf (s :: steps)⟩ k = ⟨w', tasksOf steps⟩)
    (hstacks : SameStacks w w') (hshown : line.shown = w.view w')
    (h : Shows ⟨w', tasksOf steps⟩ lines steps j l) :
    Shows ⟨w, tasksOf (s :: steps)⟩ (line :: lines) (s :: steps) (j + 1) (k + l) := by
  have hafter : Machine.after ⟨w, tasksOf (s :: steps)⟩ (k + l)
      = Machine.after ⟨w', tasksOf steps⟩ l := by
    rw [Machine.after_add, hfirst]
  refine ⟨?_, ?_, ?_, ?_⟩
  · rw [hafter]
    exact h.rest
  · rw [hafter]
    exact trans_of SameStacks hstacks h.idle
  · rw [hafter, h.full, List.take_succ_cons, List.getLast?_cons]
    cases (lines.take j).getLast? with
    | none => exact (congrArg View.full hshown).symm
    | some last => rfl
  · have hkept := (Machine.kept_after ⟨w, tasksOf (s :: steps)⟩ k).1
    rw [hfirst] at hkept
    rw [hafter, h.released, released_view hkept, List.take_succ_cons, List.flatMap_cons, hshown,
      List.append_assoc]

theorem shows_of_script {perform : Step n → Play n Answer}
    (hplays : ∀ s w, Plays (perform s) w [.step s])
    (hstacks : ∀ s scene, Dialogue.Play.Leads SameStacks (perform s) scene)
    (steps : List (Step n)) (w : World n) (j : Nat) (hj : j ≤ steps.length)
    (hend : ∀ line ∈ (Dialogue.Play.script perform World.view w steps).take j,
      IsEnd line.answer) :
    ∃ k, Shows ⟨w, tasksOf steps⟩
      (Dialogue.Play.script perform World.view w steps) steps j k := by
  induction steps generalizing w j with
  | nil =>
    cases Nat.le_zero.mp hj
    exact ⟨0, shows_start _ _ rfl⟩
  | cons s steps ih =>
    cases j with
    | zero => exact ⟨0, shows_start _ _ rfl⟩
    | succ j =>
      have hsame : SameStacks w ((perform s).start ⟨w, []⟩).2.state := hstacks s ⟨w, []⟩
      generalize hr : (perform s).start ⟨w, []⟩ = r at hsame
      obtain ⟨outcome, scene⟩ := r
      have hcons : Dialogue.Play.script perform World.view w (s :: steps)
          = ⟨outcome, scene.events, w.view scene.state⟩
            :: Dialogue.Play.script perform World.view scene.state steps := by
        rw [Dialogue.Play.script, hr]
      rw [hcons] at hend ⊢
      rw [List.take_succ_cons] at hend
      obtain ⟨k, hk⟩ := hplays s w [] outcome scene hr (hend _ List.mem_cons_self)
        (.line :: tasksOf steps)
      obtain ⟨l, hl⟩ := ih scene.state j (Nat.le_of_succ_le_succ hj)
        (fun line hline => hend line (List.mem_cons_of_mem _ hline))
      -- no panic gets beyond the line below the step
      have hleft : left outcome (.line :: tasksOf steps) = .line :: tasksOf steps := by
        cases outcome <;> rfl
      have hfirst : Machine.after ⟨w, tasksOf (s :: steps)⟩ (k + 1)
          = ⟨scene.state, tasksOf steps⟩ := by
        rw [Machine.after_add]
        rw [hleft] at hk
        exact congrArg (Machine.after · 1) hk
      exact ⟨k + 1 + l, shows_succ hfirst hsame rfl hl⟩

/--
**Captured state is owned once and released once.**

For every script over any number of slots, whether it comes to an end or not.  At every moment each
capture ever created is in one place, held by a one-shot, held by a call in progress or released,
and no callable was invoked twice; what was released stays so.  Every call, at any depth and from
any state, is refused exactly if its place holds nothing; otherwise the place is empty when the body
starts, and when the call has answered or was torn down, its captures have been released and every
place is as the body left it.  The moments at which the steps have ended are those that the script
shows.
-/
theorem captures_of_script (steps : List (Step n)) :
    let m := Machine.ofScript steps
    (∀ k, Rack.IsOwned (m.made k) (m.invoked k) (m.after k).world.rack ∧
      ((m.after k).world.rack.captures.map (·.serial)).Nodup) ∧
    (∀ k l, (m.after k).world.rack.released <:+ (m.after (k + l)).world.rack.released) ∧
    (∀ fuel p arg (s : Scene (World n) Event), IsCall (runBody fuel) p arg s ∧
      ∀ answer, ((call (runBody fuel) p arg).start s).1 = .ok answer →
        ((∃ v, answer = .ok v) ↔ (s.state.rack.content p).payload?.isSome)) ∧
    ∀ j ≤ steps.length, (∀ line ∈ (runScript steps).take j, IsEnd line.answer) →
      ∃ k, Shows m (runScript steps) steps j k := by
  intro m
  have howned : ∀ k, Rack.IsOwned (m.made k) (m.invoked k) (m.after k).world.rack :=
    Machine.owned_after Rack.IsOwned.start
  refine ⟨?_, ?_, ?_, ?_⟩
  · intro k
    exact ⟨howned k, (howned k).nodup⟩
  · intro k l
    rw [Machine.after_add]
    exact (Machine.kept_after (m.after k) l).1
  · intro fuel p arg s
    have hcall := isCall_runBody fuel p arg s
    exact ⟨hcall, fun answer hanswer => hcall.answers hanswer⟩
  · intro j hj hend
    exact shows_of_script (plays_step (plays_runBody _)) (leads_step (leads_runBody _)) steps
      {} j hj hend

/-- A callable that fills the slot it was called from and then panics. -/
example :
    let steps : List (Step 2) :=
      [.new 0 7 ⟨some 7, [7], ⟨1, 1⟩⟩
        (some [.new 0 8 ⟨none, [8], ⟨1, 1⟩⟩ none, .panic "refilled"]),
        .call 0 1, .callOnce 0 2]
    (runScript steps).map (·.shown) = [⟨[], [true, false]⟩, ⟨[some 7], [true, false]⟩,
      ⟨[some 8], [false, false]⟩] := by
  rfl

end Dialogue.OneShot
