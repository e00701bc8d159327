/-
A program cannot tell how its callables are held.

Two programs are alike if they consist of the same steps, also inside bodies, and only the layouts
of the callables they make differ.  Alike programs run in lockstep.  For what they answer this is
shown along the evaluation, by induction on the bound on the depth of calls, and for what they do
along the agenda, one task after the other, whether they come to an end or not.  Both rest on the
same lemmas about the operations of a rack.  **Only what a program asks about the storage itself
differs**, and that is told truthfully.
-/
import Dialogue.Proofs.Lockstep
import Dialogue.Proofs.OneShot.Layouts
import Dialogue.Proofs.OneShot.Plays

namespace Dialogue.OneShot

variable {n : Nat} {α : Type}

open Dialogue.Play (lockstep_pure lockstep_throw lockstep_emit lockstep_look lockstep_change
  lockstep_operate lockstep_bind lockstep_answer lockstep_ensure lockstep_aside lockstep_inside
  exists_of_bind)

/-- Steps that differ at most in the layouts of what they make, also inside a body. -/
inductive Step.Alike : Step n → Step n → Prop
  | new (i : Slot n) (name : Int) (recipe : Recipe) (layout : Layout)
      {body body' : Option (List (Step n))}
      (h : Option.Rel (List.Forall₂ Step.Alike) body body') :
      Alike (.new i name recipe body) (.new i name { recipe with layout } body')
  | call (i : Slot n) (arg : Int64) : Alike (.call i arg) (.call i arg)
  | callOnce (i : Slot n) (arg : Int64) : Alike (.callOnce i arg) (.callOnce i arg)
  | fromFn (recipe : Recipe) (layout : Layout) (times : Nat) :
      Alike (.fromFn recipe times) (.fromFn { recipe with layout } times)
  | move (i j : Slot n) : Alike (.move i j) (.move i j)
  | swap (i j : Slot n) : Alike (.swap i j) (.swap i j)
  | drop (i : Slot n) : Alike (.drop i) (.drop i)
  | inspect (i : Slot n) : Alike (.inspect i) (.inspect i)
  | panic (message : String) : Alike (.panic message) (.panic message)
  | unknown : Alike .unknown .unknown

/-- Answers that differ at most in what they tell about the storage. -/
inductive Answer.Alike : Answer → Answer → Prop
  | absent : Alike .absent .absent
  | done : Alike .done .done
  | made (isInline isInline' : Bool) : Alike (.made isInline) (.made isInline')
  | called (value : Except Refusal Int64) : Alike (.called value) (.called value)
  | shown (text text' : String) (calls : List (Except Refusal Int64)) (isEmpty : Bool) :
      Alike (.shown text calls isEmpty) (.shown text' calls isEmpty)
  | inspected (isEmpty isInline isInline' : Bool) (text text' : String) :
      Alike (.inspected isEmpty isInline text) (.inspected isEmpty isInline' text')

/-- The same bodies ran, and their steps reported alike. -/
inductive Event.Alike : Event → Event → Prop
  | ran (name : Int) {inner inner' : List (Report Answer Event)}
      (h : List.Forall₂ (Report.Alike Answer.Alike Event.Alike) inner inner') :
      Alike (.ran name inner) (.ran name inner')

/-- Alike racks, and alike bodies under the same names. -/
structure World.Alike (w w' : World n) : Prop where
  rack : w.rack.Alike w'.rack
  bodies : ∀ name, Option.Rel (List.Forall₂ Step.Alike) (w.bodies.get? name)
    (w'.bodies.get? name)

/-! ### Alike programs -/

mutual

theorem Step.Alike.weight {s s' : Step n} (h : s.Alike s') : s.weight = s'.weight :=
  match h with
  | .new _ _ _ _ .none => rfl
  | .new _ _ _ _ (.some hbody) => congrArg (· + 1) (weights_of_alike hbody)
  | .call _ _ | .callOnce _ _ | .fromFn _ _ _ | .move _ _ | .swap _ _ | .drop _ | .inspect _
  | .panic _ | .unknown => rfl

theorem weights_of_alike {steps steps' : List (Step n)}
    (h : List.Forall₂ Step.Alike steps steps') : weights steps = weights steps' :=
  match h with
  | .nil => rfl
  | .cons hstep hsteps => congrArg₂ (· + ·) hstep.weight (weights_of_alike hsteps)

end

namespace World.Alike

variable {w w' v v' : World n}

/-- Alike callables have alike bodies. -/
theorem bodyOf (h : w.Alike w') {c d : Callable} (hcd : c.Alike d) :
    List.Forall₂ Step.Alike (w.bodyOf c) (w'.bodyOf d) := by
  unfold World.bodyOf
  rw [hcd.name]
  cases d.name with
  | none => exact .nil
  | some name =>
    have hbody := h.bodies name
    dsimp only
    generalize w.bodies.get? name = body at hbody
    generalize w'.bodies.get? name = body' at hbody
    cases hbody with
    | none => exact .nil
    | some hbody => exact hbody

theorem new (h : w.Alike w') (i : Slot n) (name : Int) (recipe : Recipe) (layout : Layout)
    {body body' : Option (List (Step n))}
    (hbody : Option.Rel (List.Forall₂ Step.Alike) body body') :
    (w.new i name recipe body).Alike (w'.new i name { recipe with layout } body') := by
  refine ⟨h.rack.new i recipe layout, ?_⟩
  intro other
  cases hbody with
  | none => exact h.bodies other
  | some hsteps =>
    simp only [World.new, Option.elim_some, Table.get?_put]
    split
    · exact .some hsteps
    · exact h.bodies other

/-- An operation of the rack leaves the bodies alone. -/
theorem onRack (h : w.Alike w') {r q : Rack n} (hr : r.Alike q) :
    World.Alike { w with rack := r } { w' with rack := q } :=
  ⟨hr, h.bodies⟩

theorem start : World.Alike ({} : World n) {} :=
  ⟨.start, fun _ => .none⟩

/-- Alike worlds look the same. -/
theorem view (h : w.Alike w') (hv : v.Alike v') : w.view v = w'.view v' := by
  unfold World.view
  rw [hv.rack.full, hv.rack.released.length_eq, h.rack.released.length_eq]
  simp only [List.map_reverse, List.map_take, hv.rack.tags]

end World.Alike

/-! ### The evaluation -/

/-- Steps of two programs on alike worlds do the same. -/
abbrev InStep (A : α → α → Prop) (m m' : Play n α) : Prop :=
  Dialogue.Play.Lockstep World.Alike Event.Alike A m m'

theorem inStep_onRack {f : Rack n → Rack n} (hf : ∀ r q, r.Alike q → (f r).Alike (f q)) :
    InStep (fun _ _ => True) (onRack f) (onRack f) :=
  lockstep_change fun _ _ hw => hw.onRack (hf _ _ hw.rack)

theorem inStep_ensureOnRack {A : α → α → Prop} {m m' : Play n α} {f : Rack n → Rack n}
    (hm : InStep A m m') (hf : ∀ r q, r.Alike q → (f r).Alike (f q)) :
    InStep A (ensureOnRack m f) (ensureOnRack m' f) :=
  lockstep_ensure hm fun _ _ hw => hw.onRack (hf _ _ hw.rack)

section

variable {inner : List (Step n) → Play n (List (Report Answer Event))}
  (hinner : ∀ body body', List.Forall₂ Step.Alike body body' →
    InStep (List.Forall₂ (Report.Alike Answer.Alike Event.Alike)) (inner body) (inner body'))

include hinner

theorem inStep_runBodyOf {c d : Callable} (h : c.Alike d) :
    InStep (fun _ _ => True) (runBodyOf inner c) (runBodyOf inner d) := by
  unfold runBodyOf
  refine lockstep_bind (lockstep_look fun w w' hw => hw.bodyOf h) ?_
  intro body body' hbody
  rw [h.name]
  -- only a body with steps in it is announced
  cases hbody with
  | nil => cases d.name <;> exact lockstep_pure trivial
  | cons hstep hsteps =>
    cases d.name with
    | none => exact lockstep_pure trivial
    | some name =>
      refine lockstep_bind (lockstep_aside (hinner _ _ (.cons hstep hsteps))) ?_
      intro reports reports' hreports
      exact lockstep_emit (.ran name hreports)

theorem inStep_conduct {c d : Callable} (h : c.Alike d) (arg : Int64) :
    InStep (· = ·) (conduct inner c arg) (conduct inner d arg) :=
  inStep_ensureOnRack (lockstep_answer (inStep_runBodyOf hinner h) fun _ _ _ => h.value arg)
    fun _ _ hr => hr.finish

theorem inStep_call (p : Place n) (arg : Int64) :
    InStep (· = ·) (call inner p arg) (call inner p arg) := by
  unfold call
  refine lockstep_bind (A := Option.Rel Callable.Alike) (lockstep_operate ?_) ?_
  · intro w w' hw
    have hbegin := hw.rack.begin? p
    generalize w.rack.begin? p = b at hbegin
    generalize w'.rack.begin? p = b' at hbegin
    cases hbegin with
    | none => exact ⟨.none, hw⟩
    | some h => exact ⟨.some h.1, hw.onRack h.2⟩
  · intro begun begun' hbegun
    cases hbegun with
    | none => exact lockstep_pure rfl
    | some h => exact lockstep_answer (inStep_conduct hinner h arg) fun _ _ hv => congrArg _ hv

theorem inStep_callTimes (times : Nat) :
    InStep (· = ·) (callTimes inner times) (callTimes inner times) := by
  induction times with
  | zero => exact lockstep_pure rfl
  | succ times ih =>
    refine lockstep_bind (inStep_call hinner .loose 0) ?_
    rintro answer _ rfl
    exact lockstep_answer ih fun _ _ hcalls => congrArg _ hcalls

/-- What is shown of the storage is the only difference. -/
theorem inStep_showCalls (times : Nat) :
    InStep Answer.Alike (showCalls inner times) (showCalls inner times) := by
  unfold showCalls
  refine lockstep_bind (A := fun _ _ => True) (lockstep_look fun _ _ _ => trivial) ?_
  intro text text' _
  refine lockstep_bind (inStep_callTimes hinner times) ?_
  rintro calls _ rfl
  refine lockstep_answer (A := (· = ·)) (lockstep_look fun w w' hw => ?_) ?_
  · exact (hw.rack.content .loose).isEmpty
  · rintro isEmpty _ rfl
    exact .shown text text' calls isEmpty

theorem inStep_step {s s' : Step n} (h : s.Alike s') :
    InStep Answer.Alike (perform inner s) (perform inner s') := by
  cases h with
  | new i name recipe layout hbody =>
    exact lockstep_answer (lockstep_change fun _ _ hw => hw.new i name recipe layout hbody)
      fun _ _ _ => .made _ _
  | call i arg =>
    refine lockstep_answer (inStep_call hinner (.slot i) arg) ?_
    rintro value _ rfl
    exact .called value
  | callOnce i arg =>
    refine lockstep_bind (inStep_onRack fun _ _ hr => hr.takeOut i) ?_
    intro _ _ _
    refine inStep_ensureOnRack (lockstep_answer (inStep_call hinner .loose arg) ?_)
      fun _ _ hr => hr.dropLoose
    rintro value _ rfl
    exact .called value
  | fromFn recipe layout times =>
    refine lockstep_bind
      (lockstep_change fun _ _ hw => hw.onRack (hw.rack.newLoose recipe layout)) ?_
    intro _ _ _
    exact inStep_ensureOnRack (inStep_showCalls hinner times) fun _ _ hr => hr.dropLoose
  | move i j => exact lockstep_answer (inStep_onRack fun _ _ hr => hr.move i j) fun _ _ _ => .done
  | swap i j => exact lockstep_answer (inStep_onRack fun _ _ hr => hr.swap i j) fun _ _ _ => .done
  | drop i => exact lockstep_answer (inStep_onRack fun _ _ hr => hr.drop i) fun _ _ _ => .done
  | inspect i =>
    refine lockstep_answer (A := OneShot.Alike) (lockstep_look fun _ _ hw => hw.rack.slots i) ?_
    intro k l hkl
    rw [hkl.isEmpty]
    exact .inspected _ _ _ _ _
  | panic message => exact lockstep_throw _
  | unknown => exact lockstep_pure .absent

end

theorem inStep_runBody (fuel : Nat) (body body' : List (Step n))
    (h : List.Forall₂ Step.Alike body body') :
    InStep (List.Forall₂ (Report.Alike Answer.Alike Event.Alike)) (runBody fuel body)
      (runBody fuel body') := by
  induction fuel generalizing body body' with
  | zero =>
    cases h with
    | nil => exact lockstep_pure .nil
    | cons _ _ => exact lockstep_throw .outOfFuel
  | succ fuel ih =>
    rw [runBody_succ, runBody_succ]
    exact lockstep_inside (fun _ _ hstep => inStep_step ih hstep) h

/-- Alike programs show the same but for the storage. -/
theorem alike_runScript {steps steps' : List (Step n)}
    (h : List.Forall₂ Step.Alike steps steps') :
    List.Forall₂ (Line.Alike Answer.Alike Event.Alike) (runScript steps) (runScript steps') := by
  unfold runScript
  rw [weights_of_alike h]
  exact Dialogue.Play.alike_script (fun _ _ _ _ hx hy => hx.view hy)
    (fun _ _ hstep => inStep_step (inStep_runBody _) hstep) h .start

/-! ### The agenda -/

/-- Tasks that differ at most in the layouts of what they make. -/
inductive Task.Alike : Task n → Task n → Prop
  | step {s s' : Step n} (h : s.Alike s') : Alike (.step s) (.step s')
  | call (p : Place n) : Alike (.call p) (.call p)
  | finish : Alike .finish .finish
  | dropLoose : Alike .dropLoose .dropLoose
  | line : Alike .line .line

/-- Alike worlds, and alike tasks still to be done, in the same order. -/
structure Machine.Alike (m m' : Machine n) : Prop where
  world : m.world.Alike m'.world
  agenda : List.Forall₂ Task.Alike m.agenda m'.agenda

theorem alike_unwind {tasks tasks' : List (Task n)} (h : List.Forall₂ Task.Alike tasks tasks') :
    List.Forall₂ Task.Alike (unwind tasks) (unwind tasks') := by
  induction h with
  | nil => exact .nil
  | cons htask hrest ih =>
    cases htask with
    | step _ => exact ih
    | call _ => exact ih
    | finish => exact .cons .finish ih
    | dropLoose => exact .cons .dropLoose ih
    | line => exact .cons .line hrest

theorem alike_steps {steps steps' : List (Step n)} (h : List.Forall₂ Step.Alike steps steps') :
    List.Forall₂ Task.Alike (steps.map .step) (steps'.map .step) := by
  rw [List.forall₂_map_left_iff, List.forall₂_map_right_iff]
  exact h.imp fun _ _ hstep => .step hstep

theorem alike_tasksOf {steps steps' : List (Step n)} (h : List.Forall₂ Step.Alike steps steps') :
    List.Forall₂ Task.Alike (tasksOf steps) (tasksOf steps') := by
  induction h with
  | nil => exact .nil
  | cons hstep _ ih => exact .cons (.step hstep) (.cons .line ih)

namespace World.Alike

variable {w w' : World n}

/-- What a step does at once. -/
theorem begin (h : w.Alike w') {s s' : Step n} (hs : s.Alike s') :
    World.Alike (s.begin w).1 (s'.begin w').1 ∧
      List.Forall₂ Task.Alike (s.begin w).2 (s'.begin w').2 := by
  cases hs with
  | new i name recipe layout hbody => exact ⟨h.new i name recipe layout hbody, .nil⟩
  | call i _ => exact ⟨h, .cons (.call _) .nil⟩
  | callOnce i _ =>
    exact ⟨h.onRack (h.rack.takeOut i), .cons (.call _) (.cons .dropLoose .nil)⟩
  | fromFn recipe layout times =>
    refine ⟨h.onRack (h.rack.newLoose recipe layout), ?_⟩
    refine List.rel_append ?_ (.cons .dropLoose .nil)
    exact List.forall₂_same.mpr fun t ht => List.eq_of_mem_replicate ht ▸ .call _
  | move i j => exact ⟨h.onRack (h.rack.move i j), .nil⟩
  | swap i j => exact ⟨h.onRack (h.rack.swap i j), .nil⟩
  | drop i => exact ⟨h.onRack (h.rack.drop i), .nil⟩
  | inspect _ => exact ⟨h, .nil⟩
  | panic _ => exact ⟨h, .nil⟩
  | unknown => exact ⟨h, .nil⟩

/-- What a step makes. -/
theorem made? (h : w.Alike w') {s s' : Step n} (hs : s.Alike s') :
    Option.Rel Callable.Alike (s.made? w) (s'.made? w') := by
  cases hs with
  | new i name recipe layout _ => exact .some (h.rack.next recipe layout)
  | fromFn recipe layout _ => exact .some (h.rack.next recipe layout)
  | _ => exact .none

variable {rest rest' : List (Task n)}

theorem runStep (h : w.Alike w') (hrest : List.Forall₂ Task.Alike rest rest') {s s' : Step n}
    (hs : s.Alike s') : ((Task.step s).run w rest).Alike ((Task.step s').run w' rest') := by
  obtain ⟨hworld, htasks⟩ := h.begin hs
  -- a panic is the one step that takes tasks off the agenda
  cases hs with
  | panic _ => exact ⟨h, alike_unwind hrest⟩
  | _ => exact ⟨hworld, List.rel_append htasks hrest⟩

theorem run (h : w.Alike w') (hrest : List.Forall₂ Task.Alike rest rest') {t t' : Task n}
    (ht : t.Alike t') : (t.run w rest).Alike (t'.run w' rest') := by
  cases ht with
  | step hs => exact h.runStep hrest hs
  | call p =>
    have hbegin := h.rack.begin? p
    generalize hw : w.rack.begin? p = b at hbegin
    generalize hw' : w'.rack.begin? p = b' at hbegin
    cases hbegin with
    | none =>
      rw [run_call_of_none hw, run_call_of_none hw']
      exact ⟨h, hrest⟩
    | some hb =>
      rw [run_call_of_some hw, run_call_of_some hw']
      exact ⟨h.onRack hb.2, List.rel_append (alike_steps (h.bodyOf hb.1)) (.cons .finish hrest)⟩
  | finish => exact ⟨h.onRack h.rack.finish, hrest⟩
  | dropLoose => exact ⟨h.onRack h.rack.dropLoose, hrest⟩
  | line => exact ⟨h, hrest⟩

end World.Alike

namespace Machine.Alike

variable {m m' : Machine n}

theorem tick (h : m.Alike m') : m.tick.Alike m'.tick := by
  obtain ⟨w, agenda⟩ := m
  obtain ⟨w', agenda'⟩ := m'
  obtain ⟨hworld, hagenda⟩ := h
  cases hagenda with
  | nil => exact ⟨hworld, .nil⟩
  | cons ht hrest => exact hworld.run hrest ht

/-- At every moment. -/
theorem after (h : m.Alike m') (k : Nat) : (m.after k).Alike (m'.after k) := by
  induction k with
  | zero => exact h
  | succ k ih =>
    rw [after_succ, after_succ]
    exact ih.tick

theorem made? (h : m.Alike m') : Option.Rel Callable.Alike m.made? m'.made? := by
  obtain ⟨w, agenda⟩ := m
  obtain ⟨w', agenda'⟩ := m'
  obtain ⟨hworld, hagenda⟩ := h
  cases hagenda with
  | nil => exact .none
  | cons ht _ =>
    cases ht with
    | step hs => exact hworld.made? hs
    | _ => exact .none

theorem invoked? (h : m.Alike m') : Option.Rel Callable.Alike m.invoked? m'.invoked? := by
  obtain ⟨w, agenda⟩ := m
  obtain ⟨w', agenda'⟩ := m'
  obtain ⟨hworld, hagenda⟩ := h
  cases hagenda with
  | nil => exact .none
  | cons ht _ =>
    cases ht with
    | call p => exact rel_map (hworld.rack.begin? p) fun _ _ hb => hb.1
    | _ => exact .none

/-- The callables made so far, in order. -/
theorem made (h : m.Alike m') (k : Nat) :
    List.Forall₂ Callable.Alike (m.made k) (m'.made k) := by
  refine List.rel_filterMap (R := (· = ·)) ?_ (List.forall₂_refl _)
  rintro i _ rfl
  exact (h.after i).made?

/-- The callables invoked so far, in order. -/
theorem invoked (h : m.Alike m') (k : Nat) :
    List.Forall₂ Callable.Alike (m.invoked k) (m'.invoked k) := by
  refine List.rel_filterMap (R := (· = ·)) ?_ (List.forall₂_refl _)
  rintro i _ rfl
  exact (h.after i).invoked?

end Machine.Alike

/-! ### What is told about the storage -/

/-- What the answer to a step tells about the storage, on the world that the step found. -/
inductive Step.Tells (w : World n) : Step n → Answer → Prop
  | made {i : Slot n} {name : Int} {recipe : Recipe} {body : Option (List (Step n))}
      {isInline : Bool} {text : String} (h : Says (some recipe.layout) isInline text) :
      Tells w (.new i name recipe body) (.made isInline)
  | shown {recipe : Recipe} {times : Nat} {isInline : Bool} {text : String}
      {calls : List (Except Refusal Int64)} {isEmpty : Bool}
      (h : Says (some recipe.layout) isInline text) :
      Tells w (.fromFn recipe times) (.shown text calls isEmpty)
  | inspected {i : Slot n} {isEmpty isInline : Bool} {text : String}
      (h : Says ((w.rack.content (.slot i)).payload?.map (·.layout)) isInline text)
      (hempty : isEmpty = true ↔ (w.rack.content (.slot i)).payload? = none) :
      Tells w (.inspect i) (.inspected isEmpty isInline text)
  /-- Nothing is told about it. -/
  | called {s : Step n} (value : Except Refusal Int64) : Tells w s (.called value)
  | done {s : Step n} : Tells w s .done
  | absent {s : Step n} : Tells w s .absent

theorem tells_of_showCalls {inner : List (Step n) → Play n (List (Report Answer Event))}
    {times : Nat} {s : Scene (World n) Event} {answer : Answer}
    (h : ((showCalls inner times).start s).1 = .ok answer) :
    ∃ calls isEmpty, answer = .shown (s.state.rack.content .loose).text calls isEmpty := by
  obtain ⟨text, s₁, hlook, h₁⟩ := exists_of_bind h
  obtain ⟨calls, s₂, _, h₂⟩ := exists_of_bind h₁
  obtain ⟨isEmpty, s₃, _, h₃⟩ := exists_of_bind h₂
  cases hlook
  cases h₃
  exact ⟨calls, isEmpty, rfl⟩

/-- Where each one-shot tells the truth, the answers do. -/
theorem tells_of_perform {inner : List (Step n) → Play n (List (Report Answer Event))}
    {s : Step n} {scene : Scene (World n) Event} {answer : Answer}
    (hslots : ∀ i, (scene.state.rack.content (.slot i)).IsTruthful)
    (h : ((perform inner s).start scene).1 = .ok answer) : s.Tells scene.state answer := by
  cases s with
  | new i name recipe body =>
    cases h
    have hsays := says_ofCallable (scene.state.rack.next recipe)
    rw [isInline_ofCallable] at hsays
    exact .made hsays
  | call i arg =>
    obtain ⟨value, _, _, hvalue⟩ := exists_of_bind h
    cases hvalue
    exact .called value
  | callOnce i arg =>
    obtain ⟨_, _, _, hcall⟩ := exists_of_bind h
    rw [ensureOnRack, Dialogue.Play.start_ensure] at hcall
    obtain ⟨value, _, _, hvalue⟩ := exists_of_bind hcall
    cases hvalue
    exact .called value
  | fromFn recipe times =>
    obtain ⟨calls, isEmpty, rfl⟩ := tells_of_showCalls h
    exact .shown (says_ofCallable (scene.state.rack.next recipe))
  | move i j =>
    cases h
    exact .done
  | swap i j =>
    cases h
    exact .done
  | drop i =>
    cases h
    exact .done
  | inspect i =>
    cases h
    exact .inspected (hslots i) (isEmpty_iff _)
  | panic message => cases h
  | unknown =>
    cases h
    exact .absent

/--
**Inline and boxed storage are indistinguishable.**

For every two scripts over any number of slots that differ only in the layouts of the callables they
make, inside bodies too.  They answer alike, line by line and inside every call: the same results
and refusals, the same bodies run, the same releases in the same order, the same panics and the same
slots full.  At every moment, whether they come to an end or not, what is still to be done is alike,
and so are the racks: the same slots are full, and the same callables were made, invoked and
released, in the same order.  What may differ is what is told about the storage, and that is true in
every place at every moment and in the answer to every step: in place exactly if the size is at most
48 and the alignment at most 16.
-/
theorem storage_of_script {steps steps' : List (Step n)}
    (h : List.Forall₂ Step.Alike steps steps') : let m := Machine.ofScript steps
    let m' := Machine.ofScript steps'
    List.Forall₂ (Line.Alike Answer.Alike Event.Alike) (runScript steps) (runScript steps') ∧
    (∀ k, (m.after k).Alike (m'.after k) ∧
      (m.after k).world.rack.full = (m'.after k).world.rack.full ∧
      List.Forall₂ Callable.Alike (m.made k) (m'.made k) ∧
      List.Forall₂ Callable.Alike (m.invoked k) (m'.invoked k)) ∧
    ∀ k, (∀ p, ((m.after k).world.rack.content p).IsTruthful) ∧
      ∀ fuel s events answer,
        ((perform (runBody fuel) s).start ⟨(m.after k).world, events⟩).1 = .ok answer →
          s.Tells (m.after k).world answer := by
  intro m m'
  have halike : m.Alike m' := ⟨.start, alike_tasksOf h⟩
  refine ⟨alike_runScript h, ?_, ?_⟩
  · intro k
    exact ⟨halike.after k, (halike.after k).world.rack.full, halike.made k, halike.invoked k⟩
  · intro k
    have htruthful : ∀ p, ((m.after k).world.rack.content p).IsTruthful :=
      fun p => ((halike.after k).world.rack.content p).left
    refine ⟨htruthful, ?_⟩
    intro fuel s events answer hanswer
    exact tells_of_perform (fun i => htruthful (.slot i)) hanswer

/-- A callable whose body fills the slot it was called from and then panics, and what is left by
then. -/
def refilling (layout layout' : Layout) : List (Step 2) :=
  [.new 0 7 ⟨some 7, [7], layout⟩
      (some [.new 0 8 ⟨none, [8], layout'⟩ none, .panic "refilled"]),
    .call 0 1, .inspect 0, .move 0 1, .callOnce 1 2]

/-- The outer callable boxed and the inner one in place, and the other way round. -/
theorem storage_of_refilling :
    List.Forall₂ Step.Alike (refilling ⟨32, 32⟩ ⟨48, 16⟩)
      (refilling ⟨1, 1⟩ ⟨49, 1⟩) ∧
    List.Forall₂ (Line.Alike Answer.Alike Event.Alike)
      (runScript (refilling ⟨32, 32⟩ ⟨48, 16⟩))
      (runScript (refilling ⟨1, 1⟩ ⟨49, 1⟩)) ∧
    (runScript (refilling ⟨32, 32⟩ ⟨48, 16⟩)).map (·.shown) =
      [⟨[], [true, false]⟩, ⟨[some 7], [true, false]⟩, ⟨[], [true, false]⟩,
        ⟨[], [false, true]⟩,
        ⟨[some 8], [false, false]⟩] := by
  have halike : List.Forall₂ Step.Alike (refilling ⟨32, 32⟩ ⟨48, 16⟩)
      (refilling ⟨1, 1⟩ ⟨49, 1⟩) :=
    .cons (.new _ _ _ _ (.some (.cons (.new _ _ _ _ .none) (.cons (.panic _) .nil))))
      (.cons (.call _ _) (.cons (.inspect _) (.cons (.move _ _) (.cons (.callOnce _ _) .nil))))
  exact ⟨halike, (storage_of_script halike).1, rfl⟩

end Dialogue.OneShot
