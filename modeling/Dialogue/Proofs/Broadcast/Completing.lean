/-
What is left to be done becomes less, and comes to an end.

A callback is on its signal, or on the agenda, or not registered yet, and each of its steps counts
once, wherever it is: registering moves a callback from the step to the signal, firing moves it from
there to the agenda, and what was done is gone.  So the steps that are left only become fewer.  And
where no step panics, none that is reached later does, because all callbacks come from steps.

`Completes` says that tasks come to an end, with all that they cause, and that nothing below them on
the agenda is touched meanwhile.  `Fits` is what is needed for that, and it is kept by every tick.
-/
import Dialogue.Proofs.Broadcast.Firing
import Mathlib.Algebra.Order.BigOperators.Group.List
import Mathlib.Algebra.Order.Ring.Nat

namespace Dialogue.Broadcast

/-! ### Steps that do not panic -/

mutual

/-- Neither the step panics nor its callback. -/
def Step.isCalm : Step → Bool
  | .register _ _ _ body => areCalm body
  | .registerToken _ _ _ body => areCalm body
  | .panic _ => false
  | _ => true

/-- No step panics. -/
def areCalm : List Step → Bool
  | [] => true
  | s :: steps => s.isCalm && areCalm steps

end

theorem areCalm_cons {s : Step} {steps : List Step} :
    areCalm (s :: steps) = true ↔ s.isCalm = true ∧ areCalm steps = true := by
  show (s.isCalm && areCalm steps) = true ↔ _
  exact Bool.and_eq_true_iff

namespace Listener

def isCalm : Listener Callback → Bool
  | callback k => areCalm k.body
  | future _ => true

/-- How many steps run when the listener does. -/
def weight : Listener Callback → Nat
  | callback k => weights k.body
  | future _ => 0

end Listener

namespace Task

def isCalm : Task → Bool
  | step s => s.isCalm
  | notify _ l => l.isCalm
  | _ => true

/-- How many steps a task consists of. -/
def weight : Task → Nat
  | step s => s.weight
  | notify _ l => l.weight
  | _ => 0

end Task

/-- How many steps tasks consist of. -/
def load (tasks : List Task) : Nat :=
  (tasks.map Task.weight).sum

def Signal.weight (s : Signal (Listener Callback)) : Nat :=
  (s.slots.map (·.2.weight)).sum

namespace Registry

/-- How many steps the registered callbacks consist of. -/
def weight (r : Registry Callback) : Nat :=
  (r.signals.map Signal.weight).sum

/-- No registered callback panics. -/
def IsCalm (r : Registry Callback) : Prop :=
  ∀ i, ∀ e ∈ (r.signal i).slots, e.2.isCalm = true

end Registry

/-! ### What is left to be done -/

variable {r q : Registry Callback} {order : Order}

theorem load_append (tasks more : List Task) : load (tasks ++ more) = load tasks + load more := by
  simp [load]

theorem load_steps (steps : List Step) : load (steps.map .step) = weights steps := by
  induction steps with
  | nil => rfl
  | cons s steps ih =>
    show s.weight + load (steps.map .step) = s.weight + weights steps
    rw [ih]

theorem load_notify (i : Nat) (ls : List (Listener Callback)) :
    load (ls.map (.notify i)) = (ls.map Listener.weight).sum := by
  rw [load, List.map_map]
  rfl

private theorem sum_set (f : Signal (Listener Callback) → Nat)
    (l : List (Signal (Listener Callback))) {i : Nat} (s : Signal (Listener Callback))
    (hi : i < l.length) : ((l.set i s).map f).sum + f (l[i]) = (l.map f).sum + f s := by
  induction l generalizing i with
  | nil => cases hi
  | cons a l ih =>
    cases i with
    | zero =>
      simp only [List.set_cons_zero, List.map_cons, List.sum_cons, List.getElem_cons_zero]
      omega
    | succ i =>
      have hrest := ih (Nat.lt_of_succ_lt_succ hi)
      simp only [List.set_cons_succ, List.map_cons, List.sum_cons, List.getElem_cons_succ]
      omega

theorem weight_setSignal (r : Registry Callback) (i : Nat) (s : Signal (Listener Callback)) :
    (r.setSignal i s).weight + (r.signal i).weight ≤ r.weight + s.weight := by
  by_cases hi : i < r.signals.length
  · have hget : r.signal i = r.signals[i] := by
      rw [Registry.signal, List.getElem?_eq_getElem hi]
      rfl
    rw [hget]
    exact Nat.le_of_eq (sum_set Signal.weight r.signals s hi)
  · have hsame : (r.setSignal i s).weight = r.weight := by
      rw [Registry.weight, Registry.setSignal, List.set_eq_of_length_le (Nat.le_of_not_lt hi)]
      rfl
    have hnone : (r.signal i).weight = 0 := by
      rw [Registry.signal_eq_fresh (Nat.le_of_not_lt hi)]
      rfl
    omega

theorem weight_of_same (h : q.signals = r.signals) : q.weight = r.weight := by
  rw [Registry.weight, h]
  rfl

theorem weight_unhook_le (r : Registry Callback) (hook : Hook) :
    (r.unhook hook).weight ≤ r.weight := by
  cases hook with
  | none => exact Nat.le_refl _
  | some h =>
    obtain ⟨i, id⟩ := h
    have hset := weight_setSignal r i ((r.signal i).disconnect id)
    have hless : ((r.signal i).disconnect id).weight ≤ (r.signal i).weight := by
      rw [Signal.weight, Signal.weight, Signal.slots_disconnect]
      exact (List.filter_sublist.map _).sum_le_sum (fun _ _ => Nat.zero_le _)
    show (r.setSignal i ((r.signal i).disconnect id)).weight ≤ r.weight
    omega

theorem weight_enrol_le (r : Registry Callback) (i : Option Nat) (l : Listener Callback)
    {store : Hook → Task} (hstore : ∀ h, (store h).isStore = true) :
    (r.enrol i l store).1.weight + load (r.enrol i l store).2 ≤ r.weight + l.weight := by
  have hlight : ∀ h, (store h).weight = 0 := by
    intro h
    have hs := hstore h
    cases hk : store h with
    | hook conn h => rfl
    | future f kept => rfl
    | _ => rw [hk] at hs; cases hs
  have henrols := enrols r i l store
  generalize r.enrol i l store = result at henrols ⊢
  generalize r.enrols? i l = mark at henrols
  obtain ⟨q, more⟩ := result
  cases henrols with
  | @registers i id slots armed registry =>
    have hset := weight_setSignal r i (.armed (id + 1) (slots ++ [(id, l)]))
    have hgrows : Signal.weight (.armed (id + 1) (slots ++ [(id, l)]))
        = (r.signal i).weight + l.weight := by
      rw [armed]
      simp [Signal.weight, Signal.slots]
    rw [registry]
    simp only [load, List.map_cons, List.map_nil, hlight, List.sum_cons, List.sum_nil]
    omega
  | @late i _ registry =>
    have hnotify : (Task.notify i l).weight = l.weight := rfl
    rw [registry]
    simp only [load, List.map_cons, List.map_nil, hlight, hnotify, List.sum_cons, List.sum_nil]
    omega
  | drops registry =>
    rw [registry]
    simp only [load, List.map_cons, List.map_nil, hlight, List.sum_cons, List.sum_nil]
    omega

/-- How many steps the listener consists of that a task registers. -/
def Task.adds (r : Registry Callback) (t : Task) : Nat :=
  ((t.listener? r).map Listener.weight).getD 0

/-- What a task leaves to be done beside what there was is what it registers. -/
theorem load_begin_le (horder : ∀ i ls, (order i ls).Perm ls) (hr : r.IsMade) {t : Task}
    (ht : t.isNotify = false) :
    (t.begin order r).1.weight + load (t.begin order r).2 ≤ r.weight + t.adds r := by
  have hbegins : Begins order r t _ _ _ := begins hr ht
  generalize t.begin order r = result at hbegins ⊢
  generalize t.mark? r = mark at hbegins
  obtain ⟨q, more⟩ := result
  cases hbegins with
  | rests signals _ =>
    rw [weight_of_same signals]
    exact Nat.le_add_right _ _
  | @creates source registry =>
    have hsame : (r.create source).weight = r.weight := by
      simp [Registry.weight, Registry.create, Signal.weight, Signal.fresh, Signal.slots]
    rw [registry, hsame]
    exact Nat.le_add_right _ _
  | @enrols p i l store registry signals _ _ listener stores =>
    have henrol := weight_enrol_le p i l stores
    have hadds : t.adds r = l.weight := by
      rw [Task.adds, listener]
      rfl
    rw [registry, hadds, ← weight_of_same signals]
    exact henrol
  | @fires i registry _ =>
    have hset := weight_setSignal r i .fired
    have hhanded : load ((order i (r.fire i).1).map (.notify i)) = (r.signal i).weight := by
      rw [load_notify, ((horder i (r.fire i).1).map Listener.weight).sum_eq]
      show (((r.signal i).slots.map (·.2)).map Listener.weight).sum = (r.signal i).weight
      rw [List.map_map]
      rfl
    have hnone : Signal.weight .fired = 0 := rfl
    rw [registry, hhanded]
    show (r.setSignal i .fired).weight + _ ≤ _
    omega
  | @releases p hook registry signals _ =>
    have hless := weight_unhook_le p hook
    have hsame := weight_of_same signals
    rw [registry]
    show _ + 0 ≤ _
    omega

theorem Step.weight_pos (s : Step) : 0 < s.weight := by
  cases s <;> simp [Step.weight]

/-- A step counts for itself beside what it registers. -/
theorem adds_step_lt (r : Registry Callback) (s : Step) : (Task.step s).adds r < s.weight := by
  cases s with
  | register s conn name body => exact Nat.lt_succ_self _
  | registerToken t conn name body => exact Nat.lt_succ_self _
  | _ => exact Step.weight_pos _

theorem load_begin_notify (i : Nat) (l : Listener Callback) :
    load (Task.begin order r (.notify i l)).2 = l.weight := by
  cases l with
  | callback k => exact load_steps k.body
  | future channel => rfl

/-- A task leaves no more to be done than there was. -/
theorem load_begin_le_weight (horder : ∀ i ls, (order i ls).Perm ls) (hr : r.IsMade) (t : Task) :
    (t.begin order r).1.weight + load (t.begin order r).2 ≤ r.weight + t.weight := by
  cases t with
  | step s =>
    have hless : _ ≤ r.weight + (Task.step s).adds r := load_begin_le horder hr rfl
    have hadds := adds_step_lt r s
    show _ ≤ r.weight + s.weight
    omega
  | notify i l =>
    rw [weight_of_same (signals_notify i l), load_begin_notify]
    exact Nat.le_refl _
  | hook conn h => exact load_begin_le horder hr rfl
  | future f kept => exact load_begin_le horder hr rfl

/-! ### Calm is kept -/

theorem calm_of_same (h : r.IsCalm) (hsignals : q.signals = r.signals) : q.IsCalm := by
  intro i e he
  rw [Registry.signal_of_same hsignals] at he
  exact h i e he

theorem calm_unhook (h : r.IsCalm) (hook : Hook) : (r.unhook hook).IsCalm := by
  intro j e he
  rw [Registry.signal_unhook] at he
  cases hook with
  | none => exact h j e he
  | some hook =>
    obtain ⟨i, id⟩ := hook
    dsimp only at he
    split at he
    · rw [Signal.slots_disconnect] at he
      exact h i e (List.mem_filter.mp he).1
    · exact h j e he

theorem isCalm_of_isStore {t : Task} (h : t.isStore = true) : t.isCalm = true := by
  cases t with
  | hook conn h => rfl
  | future f kept => rfl
  | _ => cases h

theorem calm_enrol (h : r.IsCalm) {i : Option Nat} (hi : ∀ k, i = some k → k < r.signals.length)
    {l : Listener Callback} (hl : l.isCalm = true) {store : Hook → Task}
    (hstore : ∀ h, (store h).isStore = true) :
    (r.enrol i l store).1.IsCalm ∧ ∀ t ∈ (r.enrol i l store).2, t.isCalm = true := by
  have hquiet : ∀ h, (store h).isCalm = true := fun h => isCalm_of_isStore (hstore h)
  have henrols := enrols r i l store
  generalize r.enrol i l store = result at henrols ⊢
  generalize r.enrols? i l = mark at henrols
  obtain ⟨q, more⟩ := result
  cases henrols with
  | @registers i id slots armed registry =>
    refine ⟨?_, by simpa using hquiet _⟩
    rw [registry]
    intro j e he
    rw [Registry.signal_setSignal r j _ (hi i rfl)] at he
    split at he
    · rcases List.mem_append.mp he with hold | hnew
      · exact h i e (by rw [armed]; exact hold)
      · cases List.mem_singleton.mp hnew
        exact hl
    · exact h j e he
  | late _ registry =>
    refine ⟨registry ▸ h, ?_⟩
    simpa using ⟨hl, hquiet none⟩
  | drops registry => exact ⟨registry ▸ h, by simpa using hquiet none⟩

theorem calm_fire (h : r.IsCalm) {i : Nat} (hi : i < r.signals.length) : (r.fire i).2.IsCalm := by
  intro j e he
  have hsignal : (r.fire i).2.signal j = if j = i then .fired else r.signal j :=
    Registry.signal_setSignal r j _ hi
  rw [hsignal] at he
  split at he
  · cases he
  · exact h j e he

theorem calm_of_listener {t : Task} (ht : t.isCalm = true) {l : Listener Callback}
    (h : t.listener? r = some l) : l.isCalm = true := by
  cases t with
  | step s =>
    cases s with
    | register s conn name body =>
      cases h
      exact ht
    | registerToken t conn name body =>
      cases h
      exact ht
    | stopped t f =>
      cases h
      rfl
    | _ => cases h
  | _ => cases h

theorem calm_steps {steps : List Step} (h : areCalm steps = true) :
    ∀ t ∈ steps.map Task.step, t.isCalm = true := by
  induction steps with
  | nil => exact nofun
  | cons s steps ih =>
    obtain ⟨hs, hsteps⟩ := areCalm_cons.mp h
    intro t ht
    rcases List.mem_cons.mp ht with rfl | hrest
    · exact hs
    · exact ih hsteps t hrest

theorem calm_begin (horder : ∀ i ls, (order i ls).Perm ls) (hr : r.IsMade) (h : r.IsCalm)
    {t : Task} (ht : t.isCalm = true) :
    (t.begin order r).1.IsCalm ∧ ∀ u ∈ (t.begin order r).2, u.isCalm = true := by
  cases hk : t.isNotify with
  | true =>
    cases t with
    | notify i l =>
      refine ⟨calm_of_same h (signals_notify i l), ?_⟩
      cases l with
      | callback k => exact calm_steps ht
      | future channel => exact nofun
    | _ => cases hk
  | false =>
    have hbegins : Begins order r t _ _ _ := begins hr hk
    generalize t.begin order r = result at hbegins ⊢
    generalize t.mark? r = mark at hbegins
    obtain ⟨q, more⟩ := result
    cases hbegins with
    | rests signals _ => exact ⟨calm_of_same h signals, nofun⟩
    | creates registry =>
      refine ⟨?_, nofun⟩
      rw [registry]
      intro i e he
      rw [Registry.signal_create] at he
      exact h i e he
    | enrols registry signals _ held listener stores =>
      rw [registry]
      refine calm_enrol (calm_of_same h signals) ?_ (calm_of_listener ht listener) stores
      rw [signals]
      exact held
    | @fires i registry held =>
      rw [registry]
      refine ⟨calm_fire h held, ?_⟩
      intro u hu
      obtain ⟨l, hl, rfl⟩ := List.mem_map.mp hu
      obtain ⟨e, he, rfl⟩ := List.mem_map.mp ((horder i _).mem_iff.mp hl)
      exact h i e he
    | releases registry signals _ =>
      rw [registry]
      exact ⟨calm_unhook (calm_of_same h signals) _, nofun⟩

/-! ### Tasks that come to an end -/

/-- The name of the callback that ran. -/
def Mark.name? : Mark → Option Int
  | ran (.callback k) => some k.name
  | _ => none

/-- The names of the callbacks that ran in a history. -/
def called (g : List (Nat × Mark)) : List Int :=
  g.filterMap (·.2.name?)

/-- Tasks are done on a registry, with all that they cause, and nothing below them on the agenda is
touched; callbacks with these names ran, in this order. -/
def Completes (order : Order) (r : Registry Callback) (tasks : List Task) (ran : List Int)
    (q : Registry Callback) : Prop :=
  ∃ n, ∀ rest, Machine.after order ⟨r, tasks ++ rest⟩ n = ⟨q, rest⟩ ∧
    called (Machine.history order ⟨r, tasks ++ rest⟩ n) = ran

namespace Completes

variable {p : Registry Callback} {tasks more : List Task} {ran : List Int}

theorem nil (order : Order) (r : Registry Callback) : Completes order r [] [] r :=
  ⟨0, fun _ => ⟨rfl, rfl⟩⟩

theorem append {rans : List Int} (h : Completes order r tasks ran p)
    (k : Completes order p more rans q) : Completes order r (tasks ++ more) (ran ++ rans) q := by
  obtain ⟨n, hn⟩ := h
  obtain ⟨m, hm⟩ := k
  refine ⟨n + m, ?_⟩
  intro rest
  obtain ⟨hstate, hran⟩ := hn (more ++ rest)
  obtain ⟨hend, hrans⟩ := hm rest
  rw [List.append_assoc, Machine.after_add, Machine.history_add, hstate, called,
    List.filterMap_append]
  exact ⟨hend, congrArg₂ (· ++ ·) hran hrans⟩

/-- A task is done, and then what it causes. -/
theorem task {t : Task} (h : Completes order (t.begin order r).1 (t.begin order r).2 ran q) :
    Completes order r [t] (((t.mark? r).bind (·.2.name?)).toList ++ ran) q := by
  obtain ⟨n, hn⟩ := h
  refine ⟨1 + n, ?_⟩
  intro rest
  obtain ⟨hend, hran⟩ := hn rest
  have hfirst : Machine.after order ⟨r, [t] ++ rest⟩ 1
      = ⟨(t.begin order r).1, (t.begin order r).2 ++ rest⟩ := rfl
  have hmark : Machine.history order ⟨r, [t] ++ rest⟩ 1 = (t.mark? r).toList := rfl
  rw [Machine.after_add, Machine.history_add, hfirst, hmark, called, List.filterMap_append]
  refine ⟨hend, congrArg₂ (· ++ ·) ?_ hran⟩
  cases t.mark? r with
  | none => rfl
  | some c => cases hc : c.2.name? <;> simp [hc]

end Completes

/-- Nothing panics, on a registry or among the tasks, and no more is to be done than a bound. -/
structure Fits (r : Registry Callback) (tasks : List Task) (bound : Nat) : Prop where
  made : r.IsMade
  registered : r.IsCalm
  calm : ∀ t ∈ tasks, t.isCalm = true
  within : r.weight + load tasks ≤ bound

namespace Fits

variable {tasks more : List Task} {t : Task} {bound : Nat}

theorem begin (horder : ∀ i ls, (order i ls).Perm ls) (h : Fits r (t :: more) bound) :
    Fits (t.begin order r).1 ((t.begin order r).2 ++ more) bound := by
  obtain ⟨hregistry, htasks⟩ :=
    calm_begin horder h.made h.registered (h.calm t List.mem_cons_self)
  have hless := load_begin_le_weight horder h.made t
  have hwithin : r.weight + (t.weight + load more) ≤ bound := h.within
  refine ⟨isMade_begin h.made t, hregistry, ?_, ?_⟩
  · intro u hu
    rcases List.mem_append.mp hu with hfirst | hrest
    · exact htasks u hfirst
    · exact h.calm u (List.mem_cons_of_mem t hrest)
  · rw [load_append]
    omega

/-- A step that is done makes room for what it causes. -/
theorem begin_step (horder : ∀ i ls, (order i ls).Perm ls) {s : Step}
    (h : Fits r [.step s] (bound + 1)) :
    Fits (Task.begin order r (.step s)).1 (Task.begin order r (.step s)).2 bound := by
  obtain ⟨hregistry, htasks⟩ :=
    calm_begin horder h.made h.registered (h.calm _ List.mem_cons_self)
  have hless : _ ≤ r.weight + (Task.step s).adds r := load_begin_le horder h.made rfl
  have hadds := adds_step_lt r s
  have hwithin : r.weight + (s.weight + 0) ≤ bound + 1 := h.within
  exact ⟨isMade_begin h.made _, hregistry, htasks, by omega⟩

theorem after (horder : ∀ i ls, (order i ls).Perm ls) {m : Machine}
    (h : Fits m.registry m.agenda bound) (n : Nat) :
    Fits (m.after order n).registry (m.after order n).agenda bound := by
  induction n with
  | zero => exact h
  | succ n ih =>
    show Fits ((m.after order n).tick order).registry ((m.after order n).tick order).agenda bound
    generalize m.after order n = m at ih
    obtain ⟨r, agenda⟩ := m
    cases agenda with
    | nil => exact ih
    | cons t more => exact ih.begin horder

/-- What completes leaves what fits for the rest. -/
theorem completes (horder : ∀ i ls, (order i ls).Perm ls) (h : Fits r (tasks ++ more) bound)
    {ran : List Int} (hc : Completes order r tasks ran q) : Fits q more bound := by
  obtain ⟨n, hn⟩ := hc
  obtain ⟨hend, -⟩ := hn more
  have hafter := after (m := ⟨r, tasks ++ more⟩) horder h n
  rwa [hend] at hafter

theorem of_append (h : Fits r (tasks ++ more) bound) : Fits r tasks bound := by
  have hwithin := h.within
  rw [load_append] at hwithin
  exact ⟨h.made, h.registered, fun t ht => h.calm t (List.mem_append_left _ ht), by omega⟩

theorem mono {more : Nat} (h : Fits r tasks bound) (hle : bound ≤ more) : Fits r tasks more :=
  ⟨h.made, h.registered, h.calm, Nat.le_trans h.within hle⟩

end Fits

end Dialogue.Broadcast
