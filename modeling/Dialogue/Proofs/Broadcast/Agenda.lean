/-
A program on signals, one task at a time.

A script runs callbacks inside the steps that cause them, to any depth, and what is running is then
a stack: the rest of the callback in progress, above what is left of those that caused it.  Here
this stack is made explicit.  A step that hands out listeners puts them on top of the agenda, in the
order in which its signal is gone through, and a listener that runs puts the steps of its callback
there.  So whatever is nested, crossed between signals or re-entered, one tick does one thing to the
registry.

`mark?` reads off the task at the head which signal it concerns and what it does to it.  `Begins`
lists once all that a task can do, and everything else about ticks is derived from it; `Happens`
says exactly what becomes of a signal, and of its listeners on the agenda, with each mark.
-/
import Dialogue.Broadcast.Script
import Dialogue.Proofs.History

namespace Dialogue.Broadcast

/-- What can happen to a signal. -/
inductive Mark
  /-- A listener was registered under a number. -/
  | registered (id : Nat) (l : Listener Callback)
  /-- The hook of a registration let go of it. -/
  | released (id : Nat)
  | fired
  /-- A listener was registered on the fired signal, so it is to run. -/
  | late (l : Listener Callback)
  | ran (l : Listener Callback)

/-- What is still to be done. -/
inductive Task
  | step (s : Step)
  /-- A listener that its signal handed out is to run. -/
  | notify (i : Nat) (l : Listener Callback)
  /-- A hook is to be stored. -/
  | hook (conn : Int) (hook : Hook)
  /-- A future is to be stored. -/
  | future (f : Int) (future : Future)

/-! ### What a task does -/

namespace Registry

variable (r : Registry Callback)

/-- Registers a listener.  Its hook is stored next, or, if the signal has fired, once the listener
ran. -/
def enrol (i : Option Nat) (l : Listener Callback) (store : Hook → Task) :
    Registry Callback × List Task :=
  match i with
  | none => (r, [store none])
  | some i =>
    match (r.signal i).register? l with
    | some (id, s) => (r.setSignal i s, [store (some (i, id))])
    | none => (r, [.notify i l, store none])

/-- Stores a future; the one it replaces lets go. -/
def storeFuture (f : Int) (future : Future) : Registry Callback :=
  { r with futures := r.futures.put f future }.unhook ((r.futures.get? f).bind (·.hook))

/-- What registering a listener means for its signal. -/
def enrols? (i : Option Nat) (l : Listener Callback) : Option (Nat × Mark) :=
  i.map fun i => (i, match (r.signal i).register? l with
    | some (id, _) => .registered id l
    | none => .late l)

end Registry

/-- What letting go of a hook means for its signal. -/
def released? (hook : Hook) : Option (Nat × Mark) :=
  hook.map fun h => (h.1, .released h.2)

/-- What a step does at once, and what is to be done next on account of it. -/
def Step.begin (order : Order) (r : Registry Callback) : Step → Registry Callback × List Task
  | .source s => (r.create s, [])
  | .dropSource s =>
    match r.sources.get? s with
    | none => (r, [])
    | some _ => ({ r with sources := r.sources.erase s }, [])
  | .token s t =>
    match r.sources.get? s with
    | none => (r, [])
    | some i => ({ r with tokens := r.tokens.put t (some i) }, [])
  | .defaultToken t => ({ r with tokens := r.tokens.put t none }, [])
  | .cloneToken t target =>
    match r.tokens.get? t with
    | none => (r, [])
    | some i => ({ r with tokens := r.tokens.put target i }, [])
  | .dropToken t =>
    match r.tokens.get? t with
    | none => (r, [])
    | some _ => ({ r with tokens := r.tokens.erase t }, [])
  | .register s conn name body =>
    match r.sources.get? s with
    | none => (r, [])
    | some i => r.enrol (some i) (.callback ⟨name, body⟩) (.hook conn)
  | .registerToken t conn name body =>
    match r.tokens.get? t with
    | none => (r, [])
    | some i => r.enrol i (.callback ⟨name, body⟩) (.hook conn)
  | .fire s =>
    match r.sources.get? s with
    | none => (r, [])
    | some i => ((r.fire i).2, (order i (r.fire i).1).map (.notify i))
  | .disconnect conn => (r.disconnect conn, [])
  | .dropConn conn => (r.dropHook conn, [])
  | .stopped t f =>
    match r.tokens.get? t with
    | none => (r, [])
    | some i => { r with channels := r.channels + 1 }.enrol i (.future r.channels) fun hook =>
        .future f { hook, channel := r.channels }
  | .poll f =>
    match r.futures.get? f with
    | none => (r, [])
    | some future => ((r.pollFuture f future).2, [])
  | .dropFuture f => (r.dropFuture f, [])
  | .panic _ => (r, [])
  | .unknown => (r, [])

/-- What a step means for the signal that it concerns. -/
def Step.mark? (r : Registry Callback) : Step → Option (Nat × Mark)
  | .register s _ name body =>
    (r.sources.get? s).bind fun i => r.enrols? (some i) (.callback ⟨name, body⟩)
  | .registerToken t _ name body =>
    (r.tokens.get? t).bind fun i => r.enrols? i (.callback ⟨name, body⟩)
  | .stopped t _ => (r.tokens.get? t).bind fun i => r.enrols? i (.future r.channels)
  | .fire s => (r.sources.get? s).map fun i => (i, .fired)
  | .disconnect conn | .dropConn conn => released? ((r.hooks.get? conn).getD none)
  | .poll f =>
    (r.futures.get? f).bind fun future =>
      if (r.pollFuture f future).1 = .ready then released? future.hook else none
  | .dropFuture f => released? ((r.futures.get? f).bind (·.hook))
  | _ => none

namespace Task

/-- What a task does at once, and what is to be done next on account of it. -/
def begin (order : Order) (r : Registry Callback) : Task → Registry Callback × List Task
  | step s => s.begin order r
  | notify _ (.callback k) => (r, k.body.map step)
  | notify _ (.future channel) => (r.tell channel, [])
  | hook conn h => (r.storeHook conn h, [])
  | future f kept => (r.storeFuture f kept, [])

/-- What a task means for the signal that it concerns. -/
def mark? (r : Registry Callback) : Task → Option (Nat × Mark)
  | step s => s.mark? r
  | notify i l => some (i, .ran l)
  | hook conn _ => released? ((r.hooks.get? conn).getD none)
  | future f _ => released? ((r.futures.get? f).bind (·.hook))

/-- The listener of a signal that a task is to run. -/
def due? (i : Nat) : Task → Option (Listener Callback)
  | notify j l => if j = i then some l else none
  | _ => none

/-- The listener that a task registers. -/
def listener? (r : Registry Callback) : Task → Option (Listener Callback)
  | step (.register _ _ name body) => some (.callback ⟨name, body⟩)
  | step (.registerToken _ _ name body) => some (.callback ⟨name, body⟩)
  | step (.stopped _ _) => some (.future r.channels)
  | _ => none

def isNotify : Task → Bool
  | notify _ _ => true
  | _ => false

def isStore : Task → Bool
  | hook _ _ => true
  | future _ _ => true
  | _ => false

@[simp] theorem due?_notify (i j : Nat) (l : Listener Callback) :
    (notify j l).due? i = if j = i then some l else none := rfl

end Task

/-- The listeners of a signal that are to run. -/
def due (i : Nat) (agenda : List Task) : List (Listener Callback) :=
  agenda.filterMap (Task.due? i)

/-! ### Ticks -/

/-- A registry, and what is still to be done on it. -/
structure Machine where
  registry : Registry Callback
  agenda : List Task

namespace Machine

/-- Does the task at the head of the agenda. -/
def tick (order : Order) (m : Machine) : Machine :=
  match m.agenda with
  | [] => m
  | t :: rest => ⟨(t.begin order m.registry).1, (t.begin order m.registry).2 ++ rest⟩

/-- What the next tick means for the signal that it concerns. -/
def mark? (m : Machine) : Option (Nat × Mark) :=
  m.agenda.head?.bind (·.mark? m.registry)

variable (order : Order)

/-- The machine after a number of ticks. -/
def after (m : Machine) : Nat → Machine
  | 0 => m
  | n + 1 => (m.after n).tick order

/-- All that happened to signals in a number of ticks. -/
def history (m : Machine) : Nat → List (Nat × Mark)
  | 0 => []
  | n + 1 => m.history n ++ (m.after order n).mark?.toList

/-- What happened to one signal. -/
def marks (m : Machine) (n : Nat) (i : Nat) : List Mark :=
  (m.history order n).filterMap (on? i)

theorem after_add (m : Machine) (k n : Nat) :
    m.after order (k + n) = (m.after order k).after order n := by
  induction n with
  | zero => rfl
  | succ n ih =>
    show (m.after order (k + n)).tick order = _
    rw [ih]
    rfl

theorem history_add (m : Machine) (k n : Nat) :
    m.history order (k + n) = m.history order k ++ (m.after order k).history order n := by
  induction n with
  | zero => exact (List.append_nil _).symm
  | succ n ih =>
    show m.history order (k + n) ++ (m.after order (k + n)).mark?.toList = _
    rw [ih, after_add, List.append_assoc]
    rfl

theorem marks_succ (m : Machine) (n i : Nat) :
    m.marks order (n + 1) i
      = m.marks order n i ++ ((m.after order n).mark?.bind (on? i)).toList := by
  show (m.history order n ++ (m.after order n).mark?.toList).filterMap (on? i) = _
  rw [List.filterMap_append]
  congr 1
  cases (m.after order n).mark? with
  | none => rfl
  | some c => cases h : on? i c <;> simp [h]

end Machine

/-! ### Sources and tokens refer to signals -/

/-- The sources and tokens refer to signals that were made. -/
structure Registry.IsMade (r : Registry Callback) : Prop where
  sources : ∀ s i, r.sources.get? s = some i → i < r.signals.length
  tokens : ∀ t i, r.tokens.get? t = some (some i) → i < r.signals.length

variable {r q : Registry Callback} {order : Order}

namespace Registry

theorem isMade_start : ({} : Registry Callback).IsMade :=
  ⟨nofun, nofun⟩

namespace IsMade

/-- Neither do sources and tokens change, nor is a signal made. -/
theorem of_same (h : r.IsMade) (hlength : q.signals.length = r.signals.length)
    (hsources : q.sources = r.sources) (htokens : q.tokens = r.tokens) : q.IsMade := by
  refine ⟨?_, ?_⟩
  · rw [hsources, hlength]
    exact h.sources
  · rw [htokens, hlength]
    exact h.tokens

theorem create (h : r.IsMade) (s : Int) : (r.create s).IsMade := by
  have hlength : (r.create s).signals.length = r.signals.length + 1 := by simp [Registry.create]
  refine ⟨?_, ?_⟩
  · intro t i hi
    rw [hlength]
    rw [Registry.create, Table.get?_put] at hi
    split at hi
    · cases hi
      omega
    · have hlt := h.sources t i hi
      omega
  · intro t i hi
    have hlt := h.tokens t i hi
    omega

theorem eraseSource (h : r.IsMade) (s : Int) :
    ({ r with sources := r.sources.erase s } : Registry Callback).IsMade := by
  refine ⟨?_, h.tokens⟩
  intro t i hi
  rw [Table.get?_erase] at hi
  split at hi
  · cases hi
  · exact h.sources t i hi

theorem eraseToken (h : r.IsMade) (t : Int) :
    ({ r with tokens := r.tokens.erase t } : Registry Callback).IsMade := by
  refine ⟨h.sources, ?_⟩
  intro u i hi
  rw [Table.get?_erase] at hi
  split at hi
  · cases hi
  · exact h.tokens u i hi

/-- A token is stored for a signal that was made. -/
theorem putToken (h : r.IsMade) (t : Int) {i : Option Nat}
    (hi : ∀ k, i = some k → k < r.signals.length) :
    ({ r with tokens := r.tokens.put t i } : Registry Callback).IsMade := by
  refine ⟨h.sources, ?_⟩
  intro u k hk
  rw [Table.get?_put] at hk
  split at hk
  · exact hi k (Option.some.inj hk)
  · exact h.tokens u k hk

theorem setSignal (h : r.IsMade) (i : Nat) (s : Signal (Listener Callback)) :
    (r.setSignal i s).IsMade :=
  h.of_same List.length_set rfl rfl

theorem unhook (h : r.IsMade) (hook : Hook) : (r.unhook hook).IsMade := by
  cases hook with
  | none => exact h
  | some _ => exact h.setSignal _ _

theorem enrol (h : r.IsMade) (i : Option Nat) (l : Listener Callback) (store : Hook → Task) :
    (r.enrol i l store).1.IsMade := by
  unfold Registry.enrol
  split
  · exact h
  · split
    · exact h.setSignal _ _
    · exact h

end IsMade

end Registry

/-! ### What a task can do -/

/-- What becomes of the registry, what is to be done next, and what it means for a signal. -/
inductive Begins (order : Order) (r : Registry Callback) (t : Task) (q : Registry Callback) :
    List Task → Option (Nat × Mark) → Prop
  /-- No signal is touched. -/
  | rests (signals : q.signals = r.signals) (made : q.IsMade) : Begins order r t q [] none
  | creates {source} (registry : q = r.create source) : Begins order r t q [] none
  | enrols {p : Registry Callback} {i l store} (registry : q = (p.enrol i l store).1)
      (signals : p.signals = r.signals) (made : p.IsMade)
      (held : ∀ k, i = some k → k < r.signals.length) (listener : t.listener? r = some l)
      (stores : ∀ h, (store h).isStore = true) :
      Begins order r t q (p.enrol i l store).2 (p.enrols? i l)
  | fires {i} (registry : q = (r.fire i).2) (held : i < r.signals.length) :
      Begins order r t q ((order i (r.fire i).1).map (.notify i)) (some (i, .fired))
  | releases {p : Registry Callback} {hook} (registry : q = p.unhook hook)
      (signals : p.signals = r.signals) (made : p.IsMade) : Begins order r t q [] (released? hook)

theorem begins_disconnect (hr : r.IsMade) (conn : Int) {t : Task} :
    Begins order r t (r.disconnect conn) [] (released? ((r.hooks.get? conn).getD none)) := by
  unfold Registry.disconnect
  cases r.hooks.get? conn with
  | none => exact .rests rfl hr
  | some hook => exact .releases rfl rfl (hr.of_same rfl rfl rfl)

theorem begins_dropHook (hr : r.IsMade) (conn : Int) {t : Task} :
    Begins order r t (r.dropHook conn) [] (released? ((r.hooks.get? conn).getD none)) := by
  unfold Registry.dropHook
  cases r.hooks.get? conn with
  | none => exact .rests rfl hr
  | some hook => exact .releases rfl rfl (hr.of_same rfl rfl rfl)

theorem begins_dropFuture (hr : r.IsMade) (f : Int) {t : Task} :
    Begins order r t (r.dropFuture f) [] (released? ((r.futures.get? f).bind (·.hook))) := by
  unfold Registry.dropFuture
  cases r.futures.get? f with
  | none => exact .rests rfl hr
  | some future => exact .releases rfl rfl (hr.of_same rfl rfl rfl)

theorem begins_pollFuture (hr : r.IsMade) (f : Int) (future : Future) {t : Task} :
    Begins order r t (r.pollFuture f future).2 []
      (if (r.pollFuture f future).1 = .ready then released? future.hook else none) := by
  unfold Registry.pollFuture
  split
  · exact .rests rfl hr
  · split
    · exact .releases rfl rfl (hr.of_same rfl rfl rfl)
    · exact .rests rfl hr

/-- A token's signal, if it has one, was made. -/
theorem Registry.IsMade.of_token (hr : r.IsMade) {t : Int} {i : Option Nat}
    (h : r.tokens.get? t = some i) : ∀ k, i = some k → k < r.signals.length := by
  rintro k rfl
  exact hr.tokens t k h

theorem begins_step (hr : r.IsMade) (s : Step) :
    Begins order r (.step s) (s.begin order r).1 (s.begin order r).2 (s.mark? r) := by
  cases s with
  | source s => exact .creates rfl
  | dropSource s =>
    simp only [Step.begin, Step.mark?]
    cases r.sources.get? s with
    | none => exact .rests rfl hr
    | some i => exact .rests rfl (hr.eraseSource s)
  | token s t =>
    simp only [Step.begin, Step.mark?]
    cases hs : r.sources.get? s with
    | none => exact .rests rfl hr
    | some i =>
      refine .rests rfl (hr.putToken t ?_)
      rintro k ⟨⟩
      exact hr.sources s i hs
  | defaultToken t => exact .rests rfl (hr.putToken t nofun)
  | cloneToken t target =>
    simp only [Step.begin, Step.mark?]
    cases ht : r.tokens.get? t with
    | none => exact .rests rfl hr
    | some i => exact .rests rfl (hr.putToken target (hr.of_token ht))
  | dropToken t =>
    simp only [Step.begin, Step.mark?]
    cases r.tokens.get? t with
    | none => exact .rests rfl hr
    | some i => exact .rests rfl (hr.eraseToken t)
  | register s conn name body =>
    simp only [Step.begin, Step.mark?]
    cases hs : r.sources.get? s with
    | none => exact .rests rfl hr
    | some i =>
      refine .enrols rfl rfl hr ?_ rfl (fun _ => rfl)
      rintro k ⟨⟩
      exact hr.sources s i hs
  | registerToken t conn name body =>
    simp only [Step.begin, Step.mark?]
    cases ht : r.tokens.get? t with
    | none => exact .rests rfl hr
    | some i => exact .enrols rfl rfl hr (hr.of_token ht) rfl (fun _ => rfl)
  | fire s =>
    simp only [Step.begin, Step.mark?]
    cases hs : r.sources.get? s with
    | none => exact .rests rfl hr
    | some i => exact .fires rfl (hr.sources s i hs)
  | disconnect conn => exact begins_disconnect hr conn
  | dropConn conn => exact begins_dropHook hr conn
  | stopped t f =>
    simp only [Step.begin, Step.mark?]
    cases ht : r.tokens.get? t with
    | none => exact .rests rfl hr
    | some i => exact .enrols rfl rfl (hr.of_same rfl rfl rfl) (hr.of_token ht) rfl (fun _ => rfl)
  | poll f =>
    simp only [Step.begin, Step.mark?]
    cases r.futures.get? f with
    | none => exact .rests rfl hr
    | some future => exact begins_pollFuture hr f future
  | dropFuture f => exact begins_dropFuture hr f
  | panic message => exact .rests rfl hr
  | unknown => exact .rests rfl hr

theorem begins (hr : r.IsMade) {t : Task} (ht : t.isNotify = false) :
    Begins order r t (t.begin order r).1 (t.begin order r).2 (t.mark? r) := by
  cases t with
  | step s => exact begins_step hr s
  | notify i l => cases ht
  | hook conn h => exact .releases rfl rfl (hr.of_same rfl rfl rfl)
  | future f kept => exact .releases rfl rfl (hr.of_same rfl rfl rfl)

/-- A listener that runs touches no signal.  The steps of its callback are next. -/
theorem signals_notify (i : Nat) (l : Listener Callback) :
    (Task.begin order r (.notify i l)).1.signals = r.signals := by
  cases l <;> rfl

theorem isMade_begin (hr : r.IsMade) (t : Task) : (t.begin order r).1.IsMade := by
  cases ht : t.isNotify with
  | true =>
    cases t with
    | notify i l =>
      cases l with
      | callback k => exact hr
      | future channel => exact hr.of_same rfl rfl rfl
    | _ => cases ht
  | false =>
    have hbegins : Begins order r t _ _ _ := begins hr ht
    generalize t.begin order r = result at hbegins ⊢
    generalize t.mark? r = mark at hbegins
    obtain ⟨q, more⟩ := result
    cases hbegins with
    | rests _ made => exact made
    | creates registry =>
      rw [registry]
      exact hr.create _
    | enrols registry _ made _ _ _ =>
      rw [registry]
      exact made.enrol _ _ _
    | fires registry _ =>
      rw [registry]
      exact hr.setSignal _ _
    | releases registry _ made =>
      rw [registry]
      exact made.unhook _

/-! ### What becomes of one signal -/

/-- With a mark, a signal and its listeners on the agenda become others. -/
inductive Happens (s : Signal (Listener Callback)) (due : List (Listener Callback)) :
    Option Mark → Signal (Listener Callback) → List (Listener Callback) → Prop
  | rests : Happens s due none s due
  | registers {id slots l} (armed : s = .armed id slots) :
      Happens s due (some (.registered id l)) (.armed (id + 1) (slots ++ [(id, l)])) due
  | releases {id} : Happens s due (some (.released id)) (s.disconnect id) due
  /-- Everything that is registered is handed out. -/
  | fires {handed} (perm : handed.Perm (s.slots.map (·.2))) :
      Happens s due (some .fired) .fired (handed ++ due)
  | late {l} (fired : s = .fired) : Happens s due (some (.late l)) s (l :: due)
  | runs {l rest} (head : due = l :: rest) : Happens s due (some (.ran l)) s rest

namespace Registry

theorem signal_of_same (h : q.signals = r.signals) (i : Nat) : q.signal i = r.signal i := by
  rw [signal, signal, h]

theorem signal_eq_fresh {i : Nat} (h : r.signals.length ≤ i) : r.signal i = .fresh := by
  rw [signal, List.getElem?_eq_none h]
  rfl

theorem signal_setSignal (r : Registry Callback) {i : Nat} (j : Nat)
    (s : Signal (Listener Callback)) (h : i < r.signals.length) :
    (r.setSignal i s).signal j = if j = i then s else r.signal j := by
  unfold signal setSignal
  by_cases hj : j = i
  · subst hj
    simp [h]
  · have hi : i ≠ j := fun hc => hj hc.symm
    simp [hj, hi]

theorem signal_create (r : Registry Callback) (source : Int) (i : Nat) :
    (r.create source).signal i = r.signal i := by
  show (r.signals ++ [Signal.fresh])[i]?.getD .fresh = r.signals[i]?.getD .fresh
  rw [List.getElem?_append]
  split
  · rfl
  · next hi =>
    rw [List.getElem?_eq_none (by omega : r.signals.length ≤ i)]
    cases i - r.signals.length with
    | zero => rfl
    | succ k => rfl

/-- A hook lets go of its own registration, and of no other. -/
theorem signal_unhook (r : Registry Callback) (hook : Hook) (j : Nat) :
    (r.unhook hook).signal j
      = match hook with
        | none => r.signal j
        | some (i, id) => if j = i then (r.signal i).disconnect id else r.signal j := by
  cases hook with
  | none => rfl
  | some h =>
    obtain ⟨i, id⟩ := h
    by_cases hi : i < r.signals.length
    · exact signal_setSignal r j _ hi
    · have hfresh := signal_eq_fresh (r := r) (Nat.le_of_not_lt hi)
      have hsame : (r.unhook (some (i, id))).signal j = r.signal j := by
        rw [unhook, setSignal, List.set_eq_of_length_le (Nat.le_of_not_lt hi)]
      rw [hsame]
      dsimp only
      split
      · next hj =>
        rw [hj, hfresh]
        rfl
      · rfl

end Registry

variable {left : List (Listener Callback)}

theorem due?_of_isStore {t : Task} (h : t.isStore = true) (j : Nat) : t.due? j = none := by
  cases t with
  | hook conn h => rfl
  | future f kept => rfl
  | _ => cases h

theorem due?_of_not_notify {t : Task} (h : t.isNotify = false) (j : Nat) : t.due? j = none := by
  cases t with
  | notify i l => cases h
  | _ => rfl

theorem due_map_notify (i j : Nat) (ls : List (Listener Callback)) :
    due j (ls.map (.notify i)) = if i = j then ls else [] := by
  induction ls with
  | nil => simp [due]
  | cons l ls ih =>
    by_cases hi : i = j
    · rw [if_pos hi] at ih ⊢
      simpa [due, hi] using ih
    · simp [due, hi]

theorem due_cons (j : Nat) (t : Task) (rest : List Task) :
    due j (t :: rest) = (t.due? j).toList ++ due j rest := by
  cases h : t.due? j <;> simp [due, h]

theorem due_steps (j : Nat) (steps : List Step) : due j (steps.map .step) = [] := by
  simp [due, Task.due?]

/-- What a registration does: the listener is registered, or it comes late, or there is no
signal. -/
inductive Enrols (r : Registry Callback) (l : Listener Callback) (store : Hook → Task)
    (q : Registry Callback) : Option Nat → List Task → Option (Nat × Mark) → Prop
  | registers {i id slots} (armed : r.signal i = .armed id slots)
      (registry : q = r.setSignal i (.armed (id + 1) (slots ++ [(id, l)]))) :
      Enrols r l store q (some i) [store (some (i, id))] (some (i, .registered id l))
  | late {i} (fired : r.signal i = .fired) (registry : q = r) :
      Enrols r l store q (some i) [.notify i l, store none] (some (i, .late l))
  | drops (registry : q = r) : Enrols r l store q none [store none] none

theorem enrols (r : Registry Callback) (i : Option Nat) (l : Listener Callback)
    (store : Hook → Task) :
    Enrols r l store (r.enrol i l store).1 i (r.enrol i l store).2 (r.enrols? i l) := by
  cases i with
  | none => exact .drops rfl
  | some i =>
    simp only [Registry.enrol, Registry.enrols?, Option.map_some]
    cases hs : r.signal i with
    | armed id slots => exact .registers hs rfl
    | fired => exact .late hs rfl

theorem happens_enrol {i : Option Nat} (hi : ∀ k, i = some k → k < r.signals.length)
    (l : Listener Callback) {store : Hook → Task} (hstore : ∀ h, (store h).isStore = true)
    (j : Nat) :
    Happens (r.signal j) left ((r.enrols? i l).bind (on? j)) ((r.enrol i l store).1.signal j)
      (due j (r.enrol i l store).2 ++ left) := by
  have hquiet : ∀ h, (store h).due? j = none := fun h => due?_of_isStore (hstore h) j
  have henrols := enrols r i l store
  generalize r.enrol i l store = result at henrols ⊢
  generalize r.enrols? i l = mark at henrols ⊢
  obtain ⟨q, more⟩ := result
  cases henrols with
  | drops registry =>
    have hdue : due j [store none] = [] := by simp [due, hquiet]
    rw [hdue, registry]
    exact .rests
  | @registers i id slots armed registry =>
    have hdue : due j [store (some (i, id))] = [] := by simp [due, hquiet]
    rw [hdue, registry, Registry.signal_setSignal r j _ (hi i rfl), Option.bind_some]
    by_cases hj : j = i
    · subst hj
      rw [on?, if_pos rfl, if_pos rfl]
      exact .registers armed
    · rw [on?, if_neg (fun h => hj h.symm), if_neg hj]
      exact .rests
  | @late i fired registry =>
    rw [registry, Option.bind_some]
    by_cases hj : j = i
    · subst hj
      have hdue : due j [.notify j l, store none] = [l] := by simp [due, hquiet]
      rw [on?, if_pos rfl, hdue]
      exact .late fired
    · have hij : i ≠ j := fun h => hj h.symm
      have hdue : due j [.notify i l, store none] = [] := by simp [due, hquiet, hij]
      rw [on?, if_neg hij, hdue]
      exact .rests

theorem happens_fire {i : Nat} (hi : i < r.signals.length) {handed : List (Listener Callback)}
    (perm : handed.Perm (r.fire i).1) (j : Nat) :
    Happens (r.signal j) left (on? j (i, .fired)) ((r.fire i).2.signal j)
      (due j (handed.map (.notify i)) ++ left) := by
  have hsignal : (r.fire i).2.signal j = if j = i then .fired else r.signal j :=
    Registry.signal_setSignal r j _ hi
  rw [hsignal, due_map_notify]
  by_cases hj : j = i
  · subst hj
    rw [on?, if_pos rfl, if_pos rfl, if_pos rfl]
    exact .fires perm
  · have hij : i ≠ j := fun h => hj h.symm
    rw [on?, if_neg hij, if_neg hij, if_neg hj]
    exact .rests

theorem happens_unhook (r : Registry Callback) (hook : Hook) (j : Nat) :
    Happens (r.signal j) left ((released? hook).bind (on? j)) ((r.unhook hook).signal j) left := by
  rw [Registry.signal_unhook]
  cases hook with
  | none => exact .rests
  | some h =>
    obtain ⟨i, id⟩ := h
    by_cases hj : j = i
    · subst hj
      simp only [released?, Option.map_some, Option.bind_some, on?, if_true]
      exact .releases
    · have hij : i ≠ j := fun h => hj h.symm
      simp only [released?, Option.map_some, Option.bind_some, on?, if_neg hij, if_neg hj]
      exact .rests

theorem happens_notify (i : Nat) (l : Listener Callback) (j : Nat) :
    Happens (r.signal j) ((Task.due? j (.notify i l)).toList ++ left) (on? j (i, .ran l))
      ((Task.begin order r (.notify i l)).1.signal j)
      (due j (Task.begin order r (.notify i l)).2 ++ left) := by
  have hquiet : due j (Task.begin order r (.notify i l)).2 = [] := by
    cases l with
    | callback k => exact due_steps j k.body
    | future channel => rfl
  rw [hquiet, Registry.signal_of_same (signals_notify i l)]
  by_cases hi : i = j
  · simp only [Task.due?_notify, on?, if_pos hi]
    exact .runs rfl
  · simp only [Task.due?_notify, on?, if_neg hi]
    exact .rests

/-- **Every task does to every signal what its mark says.** -/
theorem happens_task (hr : r.IsMade) (horder : ∀ i ls, (order i ls).Perm ls) (t : Task)
    (j : Nat) : Happens (r.signal j) ((t.due? j).toList ++ left) ((t.mark? r).bind (on? j))
      ((t.begin order r).1.signal j) (due j (t.begin order r).2 ++ left) := by
  cases ht : t.isNotify with
  | true =>
    cases t with
    | notify i l => exact happens_notify i l j
    | _ => cases ht
  | false =>
    have hbegins : Begins order r t _ _ _ := begins hr ht
    rw [due?_of_not_notify ht]
    generalize t.begin order r = result at hbegins ⊢
    generalize t.mark? r = mark at hbegins ⊢
    obtain ⟨q, more⟩ := result
    cases hbegins with
    | rests signals _ =>
      rw [Registry.signal_of_same signals]
      exact .rests
    | creates registry =>
      rw [registry, Registry.signal_create]
      exact .rests
    | enrols registry signals _ held _ stores =>
      rw [registry, ← Registry.signal_of_same signals j]
      refine happens_enrol ?_ _ stores j
      rw [signals]
      exact held
    | fires registry held =>
      rw [registry]
      exact happens_fire held (horder _ _) j
    | releases registry signals _ =>
      rw [registry, ← Registry.signal_of_same signals j]
      exact happens_unhook _ _ j

namespace Machine

variable {m : Machine}

theorem happens (hm : m.registry.IsMade) (horder : ∀ i ls, (order i ls).Perm ls) (j : Nat) :
    Happens (m.registry.signal j) (due j m.agenda) (m.mark?.bind (on? j))
      ((m.tick order).registry.signal j) (due j (m.tick order).agenda) := by
  obtain ⟨r, agenda⟩ := m
  cases agenda with
  | nil => exact .rests
  | cons t rest =>
    have hagenda : due j (Machine.tick order ⟨r, t :: rest⟩).agenda
        = due j (t.begin order r).2 ++ due j rest := List.filterMap_append
    rw [due_cons, hagenda]
    exact happens_task hm horder t j

theorem isMade_tick (hm : m.registry.IsMade) : (m.tick order).registry.IsMade := by
  obtain ⟨r, agenda⟩ := m
  cases agenda with
  | nil => exact hm
  | cons t rest => exact isMade_begin hm t

end Machine

end Dialogue.Broadcast
