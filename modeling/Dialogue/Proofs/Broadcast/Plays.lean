/-
Scripts run the agenda.

A step of a script runs to its end, and with it every callback that it causes, one inside the other.
On the agenda the same things are done one after the other, and the step has ended when the agenda
is what it was below the step.  `Plays` says that a step of a script does what its tasks do: it
leaves the same registry, and its events name the callbacks that ran.  So what holds along every run
of ticks holds of every script, and the bound on how deep its callbacks run inside one another is
never used up.
-/
import Dialogue.Proofs.Broadcast.Completing

namespace Dialogue.Broadcast

variable {r q : Registry Callback} {order : Order}

/-! ### The names in events -/

mutual

/-- The names of the callbacks that ran in an event, those that ran inside one another included. -/
def Event.names : Event → List Int
  | .called name inner => name :: namesOfReports inner

/-- The names of the callbacks that ran in events. -/
def names : List Event → List Int
  | [] => []
  | e :: events => e.names ++ names events

/-- The names of the callbacks that ran in a report. -/
def namesOfReport : Report Answer Event → List Int
  | ⟨_, events⟩ => names events

/-- The names of the callbacks that ran in reports. -/
def namesOfReports : List (Report Answer Event) → List Int
  | [] => []
  | report :: reports => namesOfReport report ++ namesOfReports reports

end

theorem names_append (events more : List Event) :
    names (events ++ more) = names events ++ names more := by
  induction events with
  | nil => rfl
  | cons e events ih =>
    show e.names ++ names (events ++ more) = e.names ++ names events ++ names more
    rw [ih, List.append_assoc]

theorem names_perm {events more : List Event} (h : events.Perm more) :
    (names events).Perm (names more) := by
  induction h with
  | nil => exact .refl _
  | cons e _ ih => exact ih.append_left e.names
  | swap e f events =>
    show (f.names ++ (e.names ++ names events)).Perm (e.names ++ (f.names ++ names events))
    rw [← List.append_assoc, ← List.append_assoc]
    exact List.perm_append_comm.append_right _
  | trans _ _ ih jh => exact ih.trans jh

/-! ### Steps of a script -/

open Dialogue.Play (change look operate emit aside arranged inside report)

/-- The step does what its tasks do, and its events name the callbacks that ran. -/
def Plays (order : Order) {α : Type} (m : Play α) (r : Registry Callback) (tasks : List Task) :
    Prop :=
  ∀ events, ∃ a q more ran, m.start ⟨r, events⟩ = (.ok a, ⟨q, more⟩) ∧
    Completes order r tasks ran q ∧ (names more).Perm (names events ++ ran)

/-- Nested steps do what their tasks do, and their reports name the callbacks that ran. -/
def Runs (order : Order) (m : Play (List (Report Answer Event))) (r : Registry Callback)
    (tasks : List Task) : Prop :=
  ∀ events, ∃ reports q ran, m.start ⟨r, events⟩ = (.ok reports, ⟨q, events⟩) ∧
    Completes order r tasks ran q ∧ (namesOfReports reports).Perm ran

theorem start_report {α : Type} {m : Play α} {events more : List Event} {a : α}
    (h : m.start ⟨r, []⟩ = (.ok a, ⟨q, more⟩)) :
    (Dialogue.Play.report m).start ⟨r, events⟩ = (.ok ⟨a, more⟩, ⟨q, events⟩) := by
  unfold Dialogue.Play.report
  rw [Dialogue.Play.start_aside, Dialogue.Play.start_bind, h]
  rfl

/-- Nested steps, one after the other. -/
theorem runs_inside (horder : ∀ i ls, (order i ls).Perm ls) {perform : Step → Play Answer}
    {bound : Nat}
    (hperform : ∀ s r, Fits r [.step s] bound → Plays order (perform s) r [.step s])
    (steps : List Step) (hfits : Fits r (steps.map .step) bound) :
    Runs order (inside perform steps) r (steps.map .step) := by
  induction steps generalizing r with
  | nil =>
    intro events
    exact ⟨[], r, [], rfl, .nil order r, .refl _⟩
  | cons s steps ih =>
    intro events
    have hfirst : Fits r ([.step s] ++ steps.map .step) bound := hfits
    obtain ⟨a, p, more, ran, hstart, hdone, hnames⟩ := hperform s r hfirst.of_append []
    obtain ⟨reports, q, rans, hrest, hall, hreports⟩ :=
      ih (hfirst.completes horder hdone) events
    refine ⟨⟨a, more⟩ :: reports, q, ran ++ rans, ?_, hdone.append hall, ?_⟩
    · unfold inside at hrest ⊢
      rw [List.mapM_cons, Dialogue.Play.start_bind, start_report hstart]
      dsimp only
      rw [Dialogue.Play.start_bind, hrest]
      rfl
    · exact hnames.append hreports

/-- A step runs no callback itself; those that it causes are tasks of their own. -/
theorem name?_of_task (hr : r.IsMade) {t : Task} (ht : t.isNotify = false) :
    (t.mark? r).bind (·.2.name?) = none := by
  have hbegins : Begins Order.registration r t _ _ _ := begins hr ht
  generalize t.begin Order.registration r = result at hbegins
  generalize t.mark? r = mark at hbegins ⊢
  obtain ⟨q, more⟩ := result
  cases hbegins with
  | rests _ _ => rfl
  | creates _ => rfl
  | @enrols p i l store _ _ _ _ _ _ =>
    have henrols := enrols p i l store
    generalize p.enrol i l store = result at henrols
    generalize p.enrols? i l = mark at henrols ⊢
    obtain ⟨q, more⟩ := result
    cases henrols with
    | registers _ _ => rfl
    | late _ _ => rfl
    | drops _ => rfl
  | fires _ _ => rfl
  | @releases p hook _ _ _ => cases hook <;> rfl

section

variable {α : Type} {tasks more : List Task}

theorem plays_pure (a : α) : Plays order (pure a) r [] :=
  fun events => ⟨a, r, events, [], rfl, .nil order r, by rw [List.append_nil]⟩

theorem plays_bind {β : Type} {m : Play α} {f : α → Play β} (hm : Plays order m r tasks)
    (hf : ∀ a q ran, Completes order r tasks ran q → Plays order (f a) q more) :
    Plays order (m >>= f) r (tasks ++ more) := by
  intro events
  obtain ⟨a, p, told, ran, hstart, hdone, hnames⟩ := hm events
  obtain ⟨b, q, all, rans, hrest, hall, hothers⟩ := hf a p ran hdone told
  refine ⟨b, q, all, ran ++ rans, ?_, hdone.append hall, ?_⟩
  · rw [Dialogue.Play.start_bind, hstart]
    exact hrest
  · rw [← List.append_assoc]
    exact hothers.trans (hnames.append_right rans)

/-- A step that only works out its answer after another. -/
theorem plays_answer {β : Type} {m : Play α} {f : α → Play β} (hm : Plays order m r tasks)
    (hf : ∀ a q, Plays order (f a) q []) : Plays order (m >>= f) r tasks := by
  have h := plays_bind hm (fun a q _ _ => hf a q)
  rwa [List.append_nil] at h

/-- What a task does at once is done, and what it causes is played next. -/
theorem plays_begin {m n : Play α} {t : Task} (hr : r.IsMade) (ht : t.isNotify = false)
    (hbegin : t.begin order r = (q, tasks)) (hm : Plays order m q tasks)
    (hn : ∀ events, n.start ⟨r, events⟩ = m.start ⟨q, events⟩) : Plays order n r [t] := by
  intro events
  obtain ⟨a, p, told, ran, hstart, hdone, hnames⟩ := hm events
  refine ⟨a, p, told, ran, (hn events).trans hstart, ?_, hnames⟩
  have hcompletes : Completes order (t.begin order r).1 (t.begin order r).2 ran p := by
    rw [hbegin]
    exact hdone
  have htask := hcompletes.task
  rwa [name?_of_task hr ht, Option.toList_none, List.nil_append] at htask

/-- A task that causes nothing. -/
theorem plays_silent {n : Play α} {t : Task} (hr : r.IsMade) (ht : t.isNotify = false)
    (hbegin : t.begin order r = (q, [])) (a : α)
    (hn : ∀ events, n.start ⟨r, events⟩ = (.ok a, ⟨q, events⟩)) : Plays order n r [t] :=
  plays_begin hr ht hbegin (plays_pure a) hn

end

/-! ### Callbacks -/

variable {inner : List Step → Play (List (Report Answer Event))}

theorem plays_run {k : Callback} (i : Nat) (h : Runs order (inner k.body) r (k.body.map .step)) :
    Plays order (run inner k) r [.notify i (.callback k)] := by
  intro events
  obtain ⟨reports, q, ran, hstart, hdone, hnames⟩ := h []
  refine ⟨(), q, events ++ [.called k.name reports], k.name :: ran, ?_, hdone.task, ?_⟩
  · unfold run
    rw [Dialogue.Play.start_bind, Dialogue.Play.start_aside, hstart]
    rfl
  · rw [names_append]
    refine List.Perm.append_left _ ?_
    show (k.name :: namesOfReports reports ++ []).Perm (k.name :: ran)
    rw [List.append_nil]
    exact hnames.cons k.name

theorem plays_tell (i channel : Nat) :
    Plays order (change (·.tell channel)) r [.notify i (.future channel)] := by
  intro events
  exact ⟨(), r.tell channel, events, [], rfl, Completes.task (.nil order _),
    by rw [List.append_nil]⟩

/-- Callbacks do what their tasks do, as far as no more is to be done than a bound. -/
def RunsWithin (order : Order) (inner : List Step → Play (List (Report Answer Event)))
    (bound : Nat) : Prop :=
  ∀ body r, Fits r (body.map .step) bound → Runs order (inner body) r (body.map .step)

theorem plays_notify (horder : ∀ i ls, (order i ls).Perm ls) {bound : Nat}
    (hinner : RunsWithin order inner bound) {i : Nat} {l : Listener Callback}
    (hfits : Fits r [.notify i l] bound) : Plays order (notify inner l) r [.notify i l] := by
  cases l with
  | callback k =>
    have hbody := hfits.begin horder
    rw [List.append_nil] at hbody
    exact plays_run i (hinner k.body r hbody)
  | future channel => exact plays_tell i channel

/-- The listeners of a firing, one after the other. -/
theorem plays_notifies (horder : ∀ i ls, (order i ls).Perm ls) {bound : Nat}
    (hinner : RunsWithin order inner bound) {i : Nat} (ls : List (Listener Callback))
    (hfits : Fits r (ls.map (.notify i)) bound) :
    Plays order (ls.forM (notify inner)) r (ls.map (.notify i)) := by
  induction ls generalizing r with
  | nil => exact plays_pure ()
  | cons l ls ih =>
    have hfirst : Fits r ([.notify i l] ++ ls.map (.notify i)) bound := hfits
    exact plays_bind (plays_notify horder hinner hfirst.of_append)
      (fun _ q _ hdone => ih (hfirst.completes horder hdone))

theorem plays_arranged {α : Type} {m : Play α} {f : List Event → List Event} {tasks : List Task}
    (hf : ∀ events, (f events).Perm events) (hm : Plays order m r tasks) :
    Plays order (Dialogue.Play.arranged f m) r tasks := by
  intro events
  obtain ⟨a, q, told, ran, hstart, hdone, hnames⟩ := hm events
  refine ⟨a, q, f told, ran, ?_, hdone, (names_perm (hf told)).trans hnames⟩
  show ((m.start ⟨r, events⟩).1, { (m.start ⟨r, events⟩).2 with
    events := f (m.start ⟨r, events⟩).2.events }) = _
  rw [hstart]

/-! ### Every step -/

theorem start_withSource {s : Int} {f : Nat → Play Answer} {events : List Event} :
    (withSource s f).start ⟨r, events⟩
      = match r.sources.get? s with
        | none => (.ok .absent, ⟨r, events⟩)
        | some i => (f i).start ⟨r, events⟩ := by
  unfold withSource
  rw [Dialogue.Play.start_bind, Dialogue.Play.start_look]
  cases r.sources.get? s <;> rfl

theorem start_withToken {t : Int} {f : Option Nat → Play Answer} {events : List Event} :
    (withToken t f).start ⟨r, events⟩
      = match r.tokens.get? t with
        | none => (.ok .absent, ⟨r, events⟩)
        | some i => (f i).start ⟨r, events⟩ := by
  unfold withToken
  rw [Dialogue.Play.start_bind, Dialogue.Play.start_look]
  cases r.tokens.get? t <;> rfl

theorem start_withHook {conn : Int} {m : Play Answer} {events : List Event} :
    (withHook conn m).start ⟨r, events⟩
      = match r.hooks.get? conn with
        | none => (.ok .absent, ⟨r, events⟩)
        | some _ => m.start ⟨r, events⟩ := by
  unfold withHook
  rw [Dialogue.Play.start_bind, Dialogue.Play.start_look]
  cases r.hooks.get? conn <;> rfl

theorem start_withFuture {f : Int} {m : Future → Play Answer} {events : List Event} :
    (withFuture f m).start ⟨r, events⟩
      = match r.futures.get? f with
        | none => (.ok .absent, ⟨r, events⟩)
        | some future => (m future).start ⟨r, events⟩ := by
  unfold withFuture
  rw [Dialogue.Play.start_bind, Dialogue.Play.start_look]
  cases r.futures.get? f <;> rfl

theorem plays_fire (horder : ∀ i ls, (order i ls).Perm ls) {bound : Nat}
    (hinner : RunsWithin order inner bound) {s : Int}
    (hfits : Fits r [.step (.fire s)] (bound + 1)) :
    Plays order (perform order inner (.fire s)) r [.step (.fire s)] := by
  have hnext := hfits.begin_step horder
  cases hs : r.sources.get? s with
  | none =>
    refine plays_silent (q := r) hfits.made rfl ?_ .absent ?_
    · simp only [Task.begin, Step.begin, hs]
    · intro events
      rw [perform, start_withSource, hs]
  | some i =>
    have hbegin : Task.begin order r (.step (.fire s))
        = ((r.fire i).2, (order i (r.fire i).1).map (.notify i)) := by
      simp only [Task.begin, Step.begin, hs]
    rw [hbegin] at hnext
    have hlisteners := plays_notifies horder hinner _ hnext
    have hanswer : Plays order (do
        (order i (r.fire i).1).forM (notify inner)
        return .done : Play Answer) (r.fire i).2 ((order i (r.fire i).1).map (.notify i)) :=
      plays_answer hlisteners (fun _ _ => plays_pure _)
    have hsorted :
        Plays order (Dialogue.Play.arranged (·.mergeSort (·.name ≤ ·.name)) _) _ _ :=
      plays_arranged (fun events => List.mergeSort_perm events _) hanswer
    refine plays_begin hfits.made rfl hbegin hsorted ?_
    intro events
    rw [perform, start_withSource, hs]
    rfl

/-- What a registration answers: whether the hook is connected. -/
def answerHook (conn : Int) : Play Answer := do
  return .flag (← look fun r => r.isConnected ((r.hooks.get? conn).getD none))

theorem plays_stores (hr : r.IsMade) (conn : Int) (hook : Hook) :
    Plays order (change (·.storeHook conn hook) >>= fun _ => answerHook conn) r
      [.hook conn hook] := by
  refine plays_silent hr rfl rfl ?_ ?_
  · exact .flag ((r.storeHook conn hook).isConnected
      (((r.storeHook conn hook).hooks.get? conn).getD none))
  · intro events
    rfl

theorem start_registerCallback {i : Option Nat} {conn : Int} {k : Callback} {events : List Event} :
    (registerCallback inner i conn k).start ⟨r, events⟩
      = match r.connect i conn k with
        | (true, q) => (run inner k >>= fun _ => change (·.storeHook conn none) >>= fun _ =>
            answerHook conn).start ⟨q, events⟩
        | (false, q) => (answerHook conn).start ⟨q, events⟩ := by
  unfold registerCallback
  rw [Dialogue.Play.start_bind, Dialogue.Play.start_operate]
  dsimp only
  cases r.connect i conn k with
  | mk now q => cases now <;> rfl

theorem plays_register (horder : ∀ i ls, (order i ls).Perm ls) {bound : Nat}
    (hinner : RunsWithin order inner bound) {s : Step} (hfits : Fits r [.step s] (bound + 1))
    {i : Option Nat} {conn : Int} {k : Callback}
    (hbegin : Task.begin order r (.step s) = r.enrol i (.callback k) (.hook conn)) :
    Plays order (registerCallback inner i conn k) r [.step s] := by
  have hnext := hfits.begin_step horder
  cases i with
  | none =>
    refine plays_begin hfits.made rfl hbegin (plays_stores hfits.made conn none) ?_
    intro events
    exact start_registerCallback
  | some i =>
    cases hs : r.signal i with
    | armed id slots =>
      have henrol : Task.begin order r (.step s)
          = (r.setSignal i (.armed (id + 1) (slots ++ [(id, .callback k)])),
              [.hook conn (some (i, id))]) := by
        rw [hbegin]
        simp only [Registry.enrol, hs, Signal.register?]
      have hconnect : r.connect (some i) conn k
          = (false, (r.setSignal i (.armed (id + 1) (slots ++ [(id, .callback k)]))).storeHook conn
              (some (i, id))) := by
        simp only [Registry.connect, Registry.register, hs, Signal.register?,
          Registry.Registered.hook]
      rw [henrol] at hnext
      refine plays_begin hfits.made rfl henrol (plays_stores hnext.made conn (some (i, id))) ?_
      intro events
      rw [start_registerCallback, hconnect]
      rfl
    | fired =>
      have henrol : Task.begin order r (.step s)
          = (r, [.notify i (.callback k), .hook conn none]) := by
        rw [hbegin]
        simp only [Registry.enrol, hs, Signal.register?]
      have hconnect : r.connect (some i) conn k = (true, r) := by
        simp only [Registry.connect, Registry.register, hs, Signal.register?]
      rw [henrol] at hnext
      have hfirst : Fits r ([.notify i (.callback k)] ++ [.hook conn none]) bound := hnext
      have hboth : Plays order
          (run inner k >>= fun _ => change (·.storeHook conn none) >>= fun _ => answerHook conn)
          r ([.notify i (.callback k)] ++ [.hook conn none]) := by
        refine plays_bind (plays_notify horder hinner hfirst.of_append) ?_
        intro _ q _ hdone
        exact plays_stores (hfirst.completes horder hdone).made conn none
      refine plays_begin hfits.made rfl henrol hboth ?_
      intro events
      rw [start_registerCallback, hconnect]

theorem plays_keeps (hr : r.IsMade) (f : Int) (kept : Future) :
    Plays order (change (·.storeFuture f kept) >>= fun _ => pure .done : Play Answer) r
      [.future f kept] := by
  refine plays_silent hr rfl rfl .done ?_
  intro events
  rfl

theorem plays_createFuture (horder : ∀ i ls, (order i ls).Perm ls) {s : Step} {bound : Nat}
    (hfits : Fits r [.step s] (bound + 1)) {f : Int} {i : Option Nat} {m : Play Answer}
    (hstart : ∀ events, m.start ⟨r, events⟩ = (.ok .done, ⟨r.createFuture f i, events⟩))
    (hbegin : Task.begin order r (.step s)
      = { r with channels := r.channels + 1 }.enrol i (.future r.channels) fun hook =>
        .future f { hook, channel := r.channels }) : Plays order m r [.step s] := by
  have hnext := hfits.begin_step horder
  have hmade : Registry.IsMade { r with channels := r.channels + 1 } :=
    hfits.made.of_same rfl rfl rfl
  cases i with
  | none =>
    refine plays_begin hfits.made rfl hbegin (plays_keeps hmade f _) ?_
    intro events
    rw [hstart]
    rfl
  | some i =>
    have hsignal : Registry.signal { r with channels := r.channels + 1 } i = r.signal i := rfl
    cases hs : r.signal i with
    | armed id slots =>
      have henrol : Task.begin order r (.step s)
          = ({ r with channels := r.channels + 1 }.setSignal i
              (.armed (id + 1) (slots ++ [(id, Listener.future r.channels)])),
            [.future f { hook := some (i, id), channel := r.channels }]) := by
        rw [hbegin]
        simp only [Registry.enrol, hsignal, hs, Signal.register?]
      refine plays_begin hfits.made rfl henrol (plays_keeps (hmade.setSignal _ _) f _) ?_
      intro events
      rw [hstart]
      simp only [Registry.createFuture, Registry.register, hsignal, hs, Signal.register?]
      rfl
    | fired =>
      have henrol : Task.begin order r (.step s)
          = ({ r with channels := r.channels + 1 },
            [.notify i (.future r.channels),
              .future f { hook := none, channel := r.channels }]) := by
        rw [hbegin]
        simp only [Registry.enrol, hsignal, hs, Signal.register?]
      rw [henrol] at hnext
      have hfirst : Fits { r with channels := r.channels + 1 } ([.notify i (.future r.channels)] ++
          [.future f { hook := none, channel := r.channels }]) bound := hnext
      have htold : Plays order _ { r with channels := r.channels + 1 } _ := plays_tell i r.channels
      have hboth := plays_bind htold (fun _ q _ hdone =>
        plays_keeps (hfirst.completes horder hdone).made f { hook := none, channel := r.channels })
      refine plays_begin hfits.made rfl henrol hboth ?_
      intro events
      rw [hstart]
      simp only [Registry.createFuture, Registry.register, hsignal, hs, Signal.register?]
      rfl

section

variable {t : Task} {tasks : List Task}

/-- A step on a source. -/
theorem plays_withSource (hr : r.IsMade) (ht : t.isNotify = false) {s : Int}
    {f : Nat → Play Answer} (hnone : r.sources.get? s = none → t.begin order r = (r, []))
    (hsome : ∀ i, r.sources.get? s = some i → Plays order (f i) r [t]) :
    Plays order (withSource s f) r [t] := by
  cases hs : r.sources.get? s with
  | none =>
    refine plays_silent hr ht (hnone hs) .absent ?_
    intro events
    rw [start_withSource, hs]
  | some i =>
    intro events
    rw [start_withSource, hs]
    exact hsome i hs events

/-- A step on a token. -/
theorem plays_withToken (hr : r.IsMade) (ht : t.isNotify = false) {token : Int}
    {f : Option Nat → Play Answer}
    (hnone : r.tokens.get? token = none → t.begin order r = (r, []))
    (hsome : ∀ i, r.tokens.get? token = some i → Plays order (f i) r [t]) :
    Plays order (withToken token f) r [t] := by
  cases hs : r.tokens.get? token with
  | none =>
    refine plays_silent hr ht (hnone hs) .absent ?_
    intro events
    rw [start_withToken, hs]
  | some i =>
    intro events
    rw [start_withToken, hs]
    exact hsome i hs events

end

theorem plays_step (horder : ∀ i ls, (order i ls).Perm ls) {bound : Nat}
    (hinner : RunsWithin order inner bound) {s : Step} (hfits : Fits r [.step s] (bound + 1)) :
    Plays order (perform order inner s) r [.step s] := by
  have hr := hfits.made
  cases s with
  | source s =>
    refine plays_silent hr rfl rfl .done ?_
    intro events
    rfl
  | dropSource s =>
    refine plays_withSource hr rfl ?_ ?_
    · intro hs
      simp only [Task.begin, Step.begin, hs]
    · intro i hs
      refine plays_silent (q := { r with sources := r.sources.erase s }) hr rfl ?_ .done ?_
      · simp only [Task.begin, Step.begin, hs]
      · intro events
        rfl
  | token s t =>
    refine plays_withSource hr rfl ?_ ?_
    · intro hs
      simp only [Task.begin, Step.begin, hs]
    · intro i hs
      refine plays_silent (q := { r with tokens := r.tokens.put t (some i) }) hr rfl ?_ .done ?_
      · simp only [Task.begin, Step.begin, hs]
      · intro events
        rfl
  | defaultToken t =>
    refine plays_silent hr rfl rfl .done ?_
    intro events
    rfl
  | cloneToken t target =>
    refine plays_withToken hr rfl ?_ ?_
    · intro hs
      simp only [Task.begin, Step.begin, hs]
    · intro i hs
      refine plays_silent (q := { r with tokens := r.tokens.put target i }) hr rfl ?_ .done ?_
      · simp only [Task.begin, Step.begin, hs]
      · intro events
        rfl
  | dropToken t =>
    refine plays_withToken hr rfl ?_ ?_
    · intro hs
      simp only [Task.begin, Step.begin, hs]
    · intro i hs
      refine plays_silent (q := { r with tokens := r.tokens.erase t }) hr rfl ?_ .done ?_
      · simp only [Task.begin, Step.begin, hs]
      · intro events
        rfl
  | register s conn name body =>
    refine plays_withSource hr rfl ?_ ?_
    · intro hs
      simp only [Task.begin, Step.begin, hs]
    · intro i hs
      refine plays_register horder hinner hfits ?_
      simp only [Task.begin, Step.begin, hs]
  | registerToken t conn name body =>
    refine plays_withToken hr rfl ?_ ?_
    · intro hs
      simp only [Task.begin, Step.begin, hs]
    · intro i hs
      refine plays_register horder hinner hfits ?_
      simp only [Task.begin, Step.begin, hs]
  | fire s => exact plays_fire horder hinner hfits
  | disconnect conn =>
    cases hc : r.hooks.get? conn with
    | none =>
      refine plays_silent (q := r) hr rfl ?_ .absent ?_
      · simp only [Task.begin, Step.begin, Registry.disconnect, hc]
      · intro events
        rw [perform, start_withHook, hc]
    | some hook =>
      refine plays_silent hr rfl rfl .done ?_
      intro events
      rw [perform, start_withHook, hc]
      rfl
  | dropConn conn =>
    cases hc : r.hooks.get? conn with
    | none =>
      refine plays_silent (q := r) hr rfl ?_ .absent ?_
      · simp only [Task.begin, Step.begin, Registry.dropHook, hc]
      · intro events
        rw [perform, start_withHook, hc]
    | some hook =>
      refine plays_silent hr rfl rfl .done ?_
      intro events
      rw [perform, start_withHook, hc]
      rfl
  | stopped t f =>
    refine plays_withToken hr rfl ?_ ?_
    · intro hs
      simp only [Task.begin, Step.begin, hs]
    · intro i hs
      refine plays_createFuture (f := f) (i := i) horder hfits (fun _ => rfl) ?_
      simp only [Task.begin, Step.begin, hs]
  | poll f =>
    cases hf : r.futures.get? f with
    | none =>
      refine plays_silent (q := r) hr rfl ?_ .absent ?_
      · simp only [Task.begin, Step.begin, hf]
      · intro events
        rw [perform, start_withFuture, hf]
    | some future =>
      refine plays_silent (q := (r.pollFuture f future).2) hr rfl ?_
        (.polled (r.pollFuture f future).1) ?_
      · simp only [Task.begin, Step.begin, hf]
      · intro events
        rw [perform, start_withFuture, hf]
        rfl
  | dropFuture f =>
    cases hf : r.futures.get? f with
    | none =>
      refine plays_silent (q := r) hr rfl ?_ .absent ?_
      · simp only [Task.begin, Step.begin, Registry.dropFuture, hf]
      · intro events
        rw [perform, start_withFuture, hf]
    | some future =>
      refine plays_silent hr rfl rfl .done ?_
      intro events
      rw [perform, start_withFuture, hf]
      rfl
  | panic message =>
    have hcalm := hfits.calm _ List.mem_cons_self
    cases hcalm
  | unknown =>
    refine plays_silent hr rfl rfl .absent ?_
    intro events
    rfl

/-- The bound on how deep callbacks run inside one another is not used up. -/
theorem runsWithin_runBody (horder : ∀ i ls, (order i ls).Perm ls) (fuel : Nat) :
    RunsWithin order (runBody order (fuel + 1)) fuel := by
  induction fuel with
  | zero =>
    intro body r hfits
    refine runs_inside horder ?_ body hfits
    intro s r hs
    -- a step is more to be done than nothing
    have hwithin : r.weight + (s.weight + 0) ≤ 0 := hs.within
    have hpos := s.weight_pos
    omega
  | succ fuel ih =>
    intro body r hfits
    exact runs_inside horder (fun s r hs => plays_step horder ih hs) body hfits

/-- Whatever is to be done comes to an end. -/
theorem completes_of_fits (horder : ∀ i ls, (order i ls).Perm ls) {tasks : List Task}
    {bound : Nat} (hfits : Fits r tasks bound) : ∃ ran q, Completes order r tasks ran q := by
  have hinner := runsWithin_runBody horder bound
  have hone : ∀ t r, Fits r [t] bound → ∃ ran q, Completes order r [t] ran q := by
    intro t r ht
    cases t with
    | step s =>
      obtain ⟨_, q, _, ran, _, hdone, _⟩ :=
        plays_step horder hinner (ht.mono (Nat.le_succ bound)) []
      exact ⟨ran, q, hdone⟩
    | notify i l =>
      obtain ⟨_, q, _, ran, _, hdone, _⟩ := plays_notify horder hinner ht []
      exact ⟨ran, q, hdone⟩
    | hook conn h => exact ⟨_, _, Completes.task (.nil order _)⟩
    | future f kept => exact ⟨_, _, Completes.task (.nil order _)⟩
  induction tasks generalizing r with
  | nil => exact ⟨[], r, .nil order r⟩
  | cons t tasks ih =>
    have hfirst : Fits r ([t] ++ tasks) bound := hfits
    obtain ⟨ran, p, hdone⟩ := hone t r hfirst.of_append
    obtain ⟨rans, q, hall⟩ := ih (hfirst.completes horder hdone)
    exact ⟨ran ++ rans, q, hdone.append hall⟩

/-! ### Scripts -/

/-- A registry with one source, and the steps of a script. -/
def Machine.ofScript (steps : List Step) : Machine :=
  ⟨({} : Registry Callback).create 0, steps.map .step⟩

/-- After `n` ticks the first `k` steps have ended: the others are on the agenda, the registry is
what was shown last, and the callbacks that ran are those in the events. -/
structure Ends (order : Order) (m : Machine) (lines : List (Line Answer Event View))
    (steps : List Step) (k n : Nat) : Prop where
  rest : (m.after order n).agenda = (steps.drop k).map .step
  shown : (m.after order n).registry.view
    = ((lines.take k).getLast?.map (·.shown)).getD m.registry.view
  ran : (called (m.history order n)).Perm ((lines.take k).flatMap fun line => names line.events)

theorem ends_of_script (horder : ∀ i ls, (order i ls).Perm ls) {bound : Nat}
    (hinner : RunsWithin order inner bound) {steps : List Step}
    (hfits : Fits r (steps.map .step) bound) {lines : List (Line Answer Event View)}
    (hlines : lines = Dialogue.Play.script (perform order inner) (fun _ q => q.view) r steps) :
    (∀ line ∈ lines, ∃ answer, line.answer = .ok answer) ∧
      ∀ k ≤ steps.length, ∃ n, Ends order ⟨r, steps.map .step⟩ lines steps k n := by
  induction steps generalizing r lines with
  | nil =>
    subst hlines
    refine ⟨nofun, ?_⟩
    intro k hk
    cases Nat.le_zero.mp hk
    exact ⟨0, rfl, rfl, .refl _⟩
  | cons s steps ih =>
    have hfirst : Fits r ([.step s] ++ steps.map .step) bound := hfits
    obtain ⟨a, q, told, ran, hstart, hdone, hnames⟩ :=
      plays_step horder hinner (hfirst.of_append.mono (Nat.le_succ bound)) []
    obtain ⟨hanswers, hends⟩ := ih (hfirst.completes horder hdone) rfl
    have hcons : lines = ⟨.ok a, told, q.view⟩ ::
        Dialogue.Play.script (perform order inner) (fun _ q => q.view) q steps := by
      rw [hlines, Dialogue.Play.script, hstart]
    generalize Dialogue.Play.script (perform order inner) (fun _ q => q.view) q steps = others
      at hanswers hends hcons
    subst hcons
    refine ⟨?_, ?_⟩
    · intro line hline
      rcases List.mem_cons.mp hline with rfl | hother
      · exact ⟨a, rfl⟩
      · exact hanswers line hother
    · intro k hk
      cases k with
      | zero => exact ⟨0, rfl, rfl, .refl _⟩
      | succ k =>
        obtain ⟨n, hn⟩ := hdone
        obtain ⟨hstate, hran⟩ := hn (steps.map .step)
        obtain ⟨more, hmore⟩ := hends k (Nat.le_of_succ_le_succ hk)
        have hafter : Machine.after order ⟨r, (s :: steps).map .step⟩ (n + more)
            = Machine.after order ⟨q, steps.map .step⟩ more := by
          rw [Machine.after_add]
          exact congrArg (Machine.after order · more) hstate
        refine ⟨n + more, ?_, ?_, ?_⟩
        · rw [hafter]
          exact hmore.rest
        · rw [hafter, hmore.shown, List.take_succ_cons, List.getLast?_cons]
          cases (others.take k).getLast? <;> rfl
        · have hcalled : called (Machine.history order ⟨r, (s :: steps).map .step⟩ (n + more))
              = ran ++ called (Machine.history order ⟨q, steps.map .step⟩ more) := by
            rw [Machine.history_add, called, List.filterMap_append, ← hran, ← hstate]
            rfl
          rw [hcalled, List.take_succ_cons, List.flatMap_cons]
          exact hnames.symm.append hmore.ran

/-- Nothing is registered yet. -/
theorem fits_ofScript {steps : List Step} (hcalm : areCalm steps = true) :
    Fits (Machine.ofScript steps).registry (steps.map .step) (weights steps) := by
  refine ⟨Registry.isMade_start.create 0, ?_, calm_steps hcalm, ?_⟩
  · intro i e he
    rw [Machine.ofScript, Registry.signal_create, Registry.signal_eq_fresh (Nat.zero_le i)] at he
    cases he
  · rw [load_steps]
    exact Nat.le_of_eq (Nat.zero_add _)

/--
**A stop broadcast runs each callback at most once and misses none.**

For every script without panics, and in whichever orders signals go through their listeners: every
step answers, and when it has ended, so has everything that it caused, and its events name the
callbacks that ran.  Whatever is begun at any depth ends, with what is below it on the agenda left
alone.  At every moment, what a signal ran and still has to run is what was connected when it first
fired and what was registered since, each once; who comes late runs at once; and a fired signal
stays fired.  Gone through in another order, a signal runs the same, but for those who come late.
-/
theorem broadcasts_of_script {order : Order} (horder : ∀ i ls, (order i ls).Perm ls)
    {steps : List Step} (hcalm : areCalm steps = true) :
    let m := Machine.ofScript steps
    (∀ line ∈ runScript order steps, ∃ answer, line.answer = .ok answer) ∧
    (∀ k ≤ steps.length, ∃ n, Ends order m (runScript order steps) steps k n ∧
      ∀ i, due i (m.after order n).agenda = []) ∧
    (∀ n t rest, (m.after order n).agenda = t :: rest →
      ∃ k, (m.after order (n + k)).agenda = rest) ∧
    ∀ n, IsPrompt (m.history order n) (m.after order n).agenda ∧
      ∀ i, IsBroadcast (m.marks order n i) (due i (m.after order n).agenda) ∧
        (((m.after order n).registry.signal i).isFired = true ↔ .fired ∈ m.marks order n i) ∧
        ∀ other : Order, (∀ j ls, (other j ls).Perm ls) →
          (∀ j, j ≠ i → other j = order j) → ∀ k,
          .fired ∈ m.marks order n i → .fired ∈ m.marks other k i →
          ((runs (m.marks order n i) ++ due i (m.after order n).agenda)
              ++ latecomers (m.marks other k i)).Perm
            ((runs (m.marks other k i) ++ due i (m.after other k).agenda)
              ++ latecomers (m.marks order n i)) := by
  intro m
  have hfits := fits_ofScript hcalm
  have hmade : m.registry.IsMade := hfits.made
  have hstart : ∀ i, Stands [] (m.registry.signal i) (due i m.agenda) := by
    intro i
    have hfresh : m.registry.signal i = .fresh := by
      show (Machine.ofScript steps).registry.signal i = .fresh
      rw [Machine.ofScript, Registry.signal_create, Registry.signal_eq_fresh (Nat.zero_le i)]
    have hnone : due i m.agenda = [] := due_steps i steps
    rw [hfresh, hnone]
    exact .start
  have hbroadcast : ∀ o : Order, (∀ i ls, (o i ls).Perm ls) → ∀ n i,
      IsBroadcast (m.marks o n i) (due i (m.after o n).agenda) := by
    intro o ho n i
    exact (Machine.stands_after ho hmade hstart n i).isBroadcast
  obtain ⟨hanswers, hends⟩ :=
    ends_of_script horder (runsWithin_runBody horder (weights steps)) hfits rfl
  refine ⟨hanswers, ?_, ?_, ?_⟩
  · intro k hk
    obtain ⟨n, hn⟩ := hends k hk
    refine ⟨n, hn, ?_⟩
    intro i
    have hrest : (m.after order n).agenda = (steps.drop k).map .step := hn.rest
    rw [hrest, due_steps]
  · intro n t rest hagenda
    have hafter : Fits _ (m.after order n).agenda _ := Fits.after (m := m) horder hfits n
    rw [hagenda] at hafter
    have hfirst : Fits _ ([t] ++ rest) _ := hafter
    obtain ⟨ran, q, k, hk⟩ := completes_of_fits horder hfirst.of_append
    refine ⟨k, ?_⟩
    obtain ⟨hstate, -⟩ := hk rest
    have hm : m.after order n = ⟨(m.after order n).registry, [t] ++ rest⟩ := by
      rw [List.singleton_append, ← hagenda]
    rw [Machine.after_add, hm, hstate]
  · intro n
    refine ⟨Machine.isPrompt_after hmade n, ?_⟩
    intro i
    refine ⟨hbroadcast order horder n i,
      (Machine.stands_after horder hmade hstart n i).isFired_iff, ?_⟩
    intro other hother hagree k hfired hfired'
    have haudience := Machine.audience_of_agree hagree hfired hfired'
    exact (hbroadcast order horder n i).same_but_late
      (hbroadcast other hother k i) hfired hfired' haudience

/-- Two callbacks on one source.  The first disconnects the second, fires again and registers a
third. -/
def reentrant : List Step :=
  [.register 0 0 7 [.disconnect 1, .fire 0, .register 0 2 9 []], .register 0 1 8 [], .fire 0]

/-- The order of registration, but for the first signal, which is gone through backwards. -/
def Order.backwards : Order := fun i listeners => if i = 0 then listeners.reverse else listeners

theorem Order.backwards_perm (i : Nat) (ls : List (Listener Callback)) :
    (Order.backwards i ls).Perm ls := by
  unfold backwards
  split
  · exact List.reverse_perm ls
  · exact .refl ls

theorem broadcasts_of_reentrant :
    (∀ i ls, (Order.backwards i ls).Perm ls) ∧ areCalm reentrant = true ∧
      let m := Machine.ofScript reentrant
      called (m.history .backwards 12) = [8, 7, 9] ∧
        called (m.history .registration 12) = [7, 9, 8] ∧
      (runs (m.marks .backwards 12 0)).Perm
        (audience (m.marks .backwards 12 0) ++ latecomers (m.marks .backwards 12 0)) ∧
      (runs (m.marks .backwards 12 0) ++ latecomers (m.marks .registration 12 0)).Perm
        (runs (m.marks .registration 12 0) ++ latecomers (m.marks .backwards 12 0)) := by
  have horder : ∀ i ls, (Order.backwards i ls).Perm ls := Order.backwards_perm
  have hagree : ∀ j, j ≠ 0 → Order.registration j = Order.backwards j := by
    intro j hj
    funext ls
    exact (if_neg hj).symm
  have hcalm : areCalm reentrant = true := rfl
  refine ⟨horder, hcalm, rfl, rfl, ?_, ?_⟩
  · obtain ⟨-, -, -, hall⟩ := broadcasts_of_script horder hcalm
    obtain ⟨hbroadcast, hfired, -⟩ := (hall 12).2 0
    have honce := hbroadcast.once (hfired.mp rfl)
    rwa [show due 0 (Machine.after .backwards (Machine.ofScript reentrant) 12).agenda = [] from rfl,
      List.append_nil] at honce
  · obtain ⟨-, -, -, hall⟩ := broadcasts_of_script horder hcalm
    obtain ⟨-, -, -, hplain⟩ := broadcasts_of_script (fun _ _ => .refl _ : ∀ i ls,
      (Order.registration i ls).Perm ls) hcalm
    obtain ⟨-, hfired, hsame⟩ := (hall 12).2 0
    have hperm := hsame .registration (fun _ _ => .refl _) hagree 12 (hfired.mp rfl)
      (((hplain 12).2 0).2.1.mp rfl)
    rwa [show due 0 (Machine.after .backwards (Machine.ofScript reentrant) 12).agenda = [] from rfl,
      show due 0 (Machine.after .registration (Machine.ofScript reentrant) 12).agenda = [] from rfl,
      List.append_nil, List.append_nil] at hperm

/-- Two callbacks on one source.  The first drops the token through which the second would register
a third. -/
def rival : List Step :=
  [.token 0 1, .register 0 0 7 [.dropToken 1], .register 0 1 8 [.registerToken 1 2 9 []], .fire 0]

/-- Two callbacks on one source.  The first disconnects a callback of another source, and the second
fires that. -/
def meddling : List Step :=
  [.source 1, .register 1 0 9 [], .register 0 1 7 [.disconnect 0], .register 0 2 8 [.fire 1],
    .fire 0]

/-- Who comes late depends on the order of the firing, and so does who is there when another source
is fired in the course of it. -/
theorem order_decides_for_latecomers :
    (∀ i ls, (Order.backwards i ls).Perm ls) ∧
      called ((Machine.ofScript rival).history .registration 16) = [7, 8] ∧
      called ((Machine.ofScript rival).history .backwards 16) = [8, 9, 7] ∧
      called ((Machine.ofScript meddling).history .registration 16) = [7, 8] ∧
      called ((Machine.ofScript meddling).history .backwards 16) = [8, 9, 7] ∧
      ((Machine.ofScript rival).after .registration 16).agenda = [] ∧
      ((Machine.ofScript rival).after .backwards 16).agenda = [] ∧
      ((Machine.ofScript meddling).after .registration 16).agenda = [] ∧
      ((Machine.ofScript meddling).after .backwards 16).agenda = [] :=
  ⟨Order.backwards_perm, rfl, rfl, rfl, rfl, rfl, rfl, rfl, rfl⟩

end Dialogue.Broadcast
