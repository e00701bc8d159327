/-
A session that is dropped ends before the drop returns.

Dropping the future runs the rest of the session at once: what callbacks have still to do, the
report of the end, and what that callback does in turn.  None of this can go on for ever.  A deed
may list others, because a stop lists what the listeners of the stop signal do, and a callback
registered on a signal that has fired is listed at once; but every act that is listed was given
before, as part of an act or of a registration, and a registration is used up.  `remaining` counts
them all, and each deed lowers it.
-/
import Dialogue.Proofs.Session.Sound
import Mathlib.Algebra.Ring.Nat

namespace Dialogue.Session

/-! ### The order of a firing is fixed -/

theorem order_tearDown (s : Session) (cause : Panic) : (s.tearDown cause).order = s.order := by
  unfold tearDown
  dsimp only
  split
  · split
    · rw [vanish, unhookEngine_eq]
    · rw [vanish, unhookEngine_eq, releaseOperations_eq, settleProgress_eq]
      rfl
  · rfl

theorem order_perform (s : Session) (d : Deed) : (s.perform d).order = s.order := by
  cases d with
  | act a =>
    cases a with
    | send message => rw [perform, act, send_eq]; split <;> rfl
    | echo => rw [perform, act, send_eq]; split <;> rfl
    | stopWith r => rw [perform, act, chooseReason_eq]; rfl
    | panic message => exact order_tearDown s _
    | closed id => simp only [perform, act, createWaiter]; split <;> split <;> rfl
    | listen id acts => simp only [perform, act, listen, unhookStop_eq]; split <;> rfl
    | unlisten id => simp only [perform, act, unlisten, unhookStop_eq]; split <;> rfl
    | link a => simp only [perform, act, onLink, touch_eq]
    | _ => rfl
  | engineStop => rw [perform, onStop_eq]
  | heard id => rfl

theorem order_advances {s t : Session} (h : Advances s t) : t.order = s.order := by
  cases h with
  | shuts hg => rw [wireClosed_eq]; rfl
  | fails hf link => rw [fail_eq]
  | asks hp hw => rw [passOn_eq]; rfl
  | isDenied hp hw => exact order_tearDown s _
  | concludes hp => rw [conclude_eq, settleProgress_eq]
  | finishes hp => rw [finish_eq, unhookEngine_eq]; rfl
  | _ => rfl

theorem order_move (s : Session) (m : Move) : (s.move m).order = s.order := by
  generalize ht : s.move m = t
  have hm := moves s m
  rw [ht] at hm
  cases hm with
  | acts a => exact order_perform s (.act a)
  | does hd => exact order_perform _ _
  | advances hd hr ha => exact order_advances ha
  | drops hr hp => rw [releaseOperations_eq]
  | disowns hp => rw [unhookEngine_eq]
  | _ => rfl

theorem order_after (s : Session) (ms : List Move) : (s.after ms).order = s.order :=
  after_induction (P := fun _ t => t.order = s.order) rfl (fun _ m h => (order_move _ m).trans h) ms

/-! ### What is left to do -/

/-- How much a deed is and can still list.  An act counts twice, so that registering a callback is
more than the callback. -/
def Deed.cost : Deed → Nat
  | act a => 2 * a.weight
  | engineStop | heard _ => 1

/-- How much a list of deeds is. -/
def costs (deeds : List Deed) : Nat :=
  (deeds.map Deed.cost).sum

/-- Everything that callbacks have still to do, and everything that a stop would list. -/
def remaining (s : Session) : Nat :=
  costs s.doing + (s.stopSignal.slots.map fun slot => costs slot.2.deeds).sum

@[simp] theorem costs_cons (d : Deed) (ds : List Deed) : costs (d :: ds) = d.cost + costs ds := by
  simp [costs]

@[simp] theorem costs_append (ds es : List Deed) : costs (ds ++ es) = costs ds + costs es := by
  simp [costs]

theorem costs_flatMap (ls : List Listener) :
    costs (ls.flatMap (·.deeds)) = (ls.map fun l => costs l.deeds).sum := by
  induction ls with
  | nil => rfl
  | cons l ls ih => simp [ih]

theorem costs_acts (acts : List Act) : costs (acts.map .act) = 2 * actsWeight acts := by
  induction acts with
  | nil => rfl
  | cons a acts ih =>
    rw [List.map_cons, costs_cons, ih, actsWeight, Deed.cost]
    omega

theorem costs_token (id : Int) (acts : List Act) :
    costs (Listener.token id acts).deeds = 1 + 2 * actsWeight acts := by
  rw [Listener.deeds, costs_cons, costs_acts, Deed.cost]

theorem Act.weight_pos (a : Act) : 0 < a.weight := by
  cases a <;> simp [weight]

theorem Deed.cost_pos (d : Deed) : 0 < d.cost := by
  cases d with
  | act a =>
    have h := a.weight_pos
    rw [cost]
    omega
  | engineStop => exact Nat.one_pos
  | heard id => exact Nat.one_pos

theorem sum_filter_le {α : Type} (f : α → Nat) (p : α → Bool) (l : List α) :
    ((l.filter p).map f).sum ≤ (l.map f).sum := by
  induction l with
  | nil => exact Nat.le_refl 0
  | cons a l ih =>
    rw [List.filter_cons]
    split
    · simpa using ih
    · rw [List.map_cons, List.sum_cons]
      omega

/-- Whoever lets go of a registration takes what it would have listed away. -/
theorem remaining_unhookStop_le (s : Session) (hook : Option Nat) :
    (s.unhookStop hook).remaining ≤ s.remaining := by
  cases hook with
  | none => exact Nat.le_refl _
  | some id =>
    simp only [unhookStop, remaining, Broadcast.Signal.slots_disconnect]
    exact Nat.add_le_add_left (sum_filter_le _ _ _) _

/-- A stop moves what the listeners do from the registrations to what is left to do. -/
theorem remaining_fireStop {s : Session} (perm : ∀ l, (s.order l).Perm l) :
    s.fireStop.remaining = s.remaining := by
  have hsum : costs ((s.order (s.stopSignal.slots.map (·.2))).flatMap (·.deeds))
      = (s.stopSignal.slots.map fun slot => costs slot.2.deeds).sum := by
    rw [costs_flatMap, ((perm _).map _).sum_nat, List.map_map]
    rfl
  have hslots : s.fireStop.stopSignal.slots = [] := rfl
  have hdoing : s.fireStop.doing
      = (s.order (s.stopSignal.slots.map (·.2))).flatMap (·.deeds) ++ s.doing := rfl
  rw [remaining, remaining, hslots, hdoing, costs_append, hsum]
  simp only [List.map_nil, List.sum_nil]
  omega

theorem remaining_listen_le (s : Session) (id : Int) (acts : List Act) :
    (s.listen id acts).remaining ≤ s.remaining + (1 + 2 * actsWeight acts) := by
  unfold listen
  dsimp only
  split
  · next hook signal h =>
    refine Nat.le_trans (remaining_unhookStop_le _ _) ?_
    simp only [remaining, Broadcast.Signal.slots_of_register? h, List.map_append, List.map_cons,
      List.map_nil, List.sum_append, List.sum_cons, List.sum_nil, costs_token]
    omega
  · simp only [remaining, costs_append, costs_token]
    omega

/-! ### Every deed lowers it -/

/-- A panic lets go of the engine's registration at most. -/
theorem stopSignal_tearDown (s : Session) (cause : Panic) :
    (s.tearDown cause).stopSignal = s.stopSignal ∨
      ∃ id, (s.tearDown cause).stopSignal = s.stopSignal.disconnect id := by
  unfold tearDown
  dsimp only
  split
  · split <;>
      simp only [vanish, unhookEngine_eq, releaseOperations_eq, settleProgress_eq, fireClosed] <;>
      cases s.engineHook <;> simp
  · exact .inl rfl

/-- A panic leaves nothing to do. -/
theorem doing_tearDown (s : Session) (cause : Panic) : (s.tearDown cause).doing = [] := by
  cases hr : s.running with
  | false => rw [tearDown_of_not_running hr]
  | true => exact (tearDown_of_running hr cause).doing

theorem remaining_tearDown_le (s : Session) (cause : Panic) :
    (s.tearDown cause).remaining ≤ s.remaining := by
  rw [remaining, remaining, doing_tearDown]
  obtain h | ⟨id, h⟩ := stopSignal_tearDown s cause
  · rw [h]
    exact Nat.add_le_add_right (Nat.zero_le _) _
  · rw [h, Broadcast.Signal.slots_disconnect]
    exact Nat.add_le_add (Nat.zero_le _) (sum_filter_le _ _ _)

theorem remaining_of_eq {s t : Session} (hd : t.doing = s.doing)
    (hs : t.stopSignal = s.stopSignal) : t.remaining = s.remaining := by
  rw [remaining, remaining, hd, hs]

theorem remaining_act_lt {s : Session} (perm : ∀ l, (s.order l).Perm l) (a : Act) :
    (s.act a).remaining < 2 * a.weight + s.remaining := by
  have hpos := a.weight_pos
  have aside : ∀ t : Session, t.remaining = s.remaining →
      t.remaining < 2 * a.weight + s.remaining := by
    intro t ht
    omega
  cases a with
  | send message =>
    refine aside _ ?_
    rw [act, send_eq]
    split <;> exact remaining_of_eq rfl rfl
  | echo =>
    refine aside _ ?_
    rw [act, send_eq]
    split <;> exact remaining_of_eq rfl rfl
  | stop => exact aside _ (remaining_fireStop perm)
  | stopWith r =>
    refine aside _ ?_
    rw [act, chooseReason_eq]
    refine Eq.trans (remaining_fireStop ?_) (remaining_of_eq rfl rfl)
    exact perm
  | note => exact aside _ (remaining_of_eq rfl rfl)
  | panic message =>
    have h := remaining_tearDown_le s (.raised message)
    rw [act]
    omega
  | closed id =>
    refine aside _ ?_
    simp only [act, createWaiter]
    split <;> split <;> exact remaining_of_eq rfl rfl
  | listen id acts =>
    have h := remaining_listen_le s id acts
    rw [act, Act.weight]
    omega
  | unlisten id =>
    have h : (s.unlisten id).remaining ≤ s.remaining := by
      unfold unlisten
      split
      · exact Nat.le_refl _
      · exact remaining_unhookStop_le _ _
    rw [act]
    omega
  | tokenFired => exact aside _ rfl
  | debug => exact aside _ rfl
  | link act =>
    refine aside _ ?_
    rw [Session.act, onLink, touch_eq]
    exact remaining_of_eq rfl rfl

theorem remaining_perform_lt {s : Session} {d : Deed} {rest : List Deed}
    (perm : ∀ l, (s.order l).Perm l) (hd : s.doing = d :: rest) :
    ({ s with doing := rest }.perform d).remaining < s.remaining := by
  have hs : s.remaining = d.cost + ({ s with doing := rest } : Session).remaining := by
    rw [remaining, remaining, hd, costs_cons]
    exact Nat.add_assoc _ _ _
  have hpos := d.cost_pos
  cases d with
  | act a =>
    rw [hs]
    exact remaining_act_lt (s := { s with doing := rest }) perm a
  | engineStop =>
    rw [perform, onStop_eq]
    have : ∀ t : Session, t.doing = rest → t.stopSignal = s.stopSignal →
        t.remaining < s.remaining := by
      intro t h1 h2
      rw [remaining_of_eq (s := { s with doing := rest }) h1 h2]
      omega
    exact this _ rfl rfl
  | heard id =>
    show ({ s with doing := rest } : Session).remaining < s.remaining
    omega

/-! ### Callbacks end -/

/-- A deed leaves the future where it is, or it panics. -/
theorem position_perform (s : Session) (d : Deed) :
    (s.perform d).position = s.position ∧ (s.perform d).running = s.running ∨
      (s.perform d).position = .over ∧ (s.perform d).running = false := by
  cases d with
  | act a =>
    obtain ⟨message, -, ha⟩ | ⟨message, -, ha⟩ | ⟨-, ha⟩ := act_cases s a
    · refine .inl ?_
      rw [perform, ha, send_eq]
      split <;> exact ⟨rfl, rfl⟩
    · rw [perform, ha]
      cases hr : s.running with
      | false => exact .inl (by rw [tearDown_of_not_running hr]; exact ⟨rfl, hr⟩)
      | true =>
        have ht := tearDown_of_running hr (.raised message)
        exact .inr ⟨ht.position, ht.running⟩
    · exact .inl ⟨ha.position, ha.running⟩
  | engineStop =>
    refine .inl ?_
    rw [perform, onStop_eq]
    exact ⟨rfl, rfl⟩
  | heard id => exact .inl ⟨rfl, rfl⟩

/-- What callbacks have to do is done after some steps, and then the future is where it was, or
it was torn down. -/
theorem callbacks_end {s : Session} (perm : ∀ l, (s.order l).Perm l) :
    ∃ n, (s.after (.replicate n .tick)).doing = [] ∧
      ((s.after (.replicate n .tick)).position = s.position ∧
          (s.after (.replicate n .tick)).running = s.running ∨
        (s.after (.replicate n .tick)).position = .over ∧
          (s.after (.replicate n .tick)).running = false) := by
  induction hn : s.remaining using Nat.strongRecOn generalizing s with
  | _ k ih =>
    cases hd : s.doing with
    | nil => exact ⟨0, hd, .inl ⟨rfl, rfl⟩⟩
    | cons d rest =>
      have hlt := remaining_perform_lt perm hd
      have htick := tick_of_cons hd
      have hperm : ∀ l, (({ s with doing := rest }.perform d).order l).Perm l := by
        rw [order_perform]
        exact perm
      rw [hn] at hlt
      obtain ⟨n, hdone, hplace⟩ := ih _ hlt hperm rfl
      refine ⟨n + 1, ?_⟩
      rw [List.replicate_succ, after_cons, htick]
      refine ⟨hdone, ?_⟩
      obtain ⟨hp, hr⟩ | ⟨hp, hr⟩ := position_perform { s with doing := rest } d
      · obtain ⟨hp', hr'⟩ | hover := hplace
        · exact .inl ⟨hp'.trans hp, hr'.trans hr⟩
        · exact .inr hover
      · obtain ⟨hp', hr'⟩ | hover := hplace
        · exact .inr ⟨hp'.trans hp, hr'.trans hr⟩
        · exact .inr hover

/-- A future that has only to report the end does so. -/
theorem over_of_concluding {s : Session} (perm : ∀ l, (s.order l).Perm l) {reason : Ending}
    {resolves : Bool} (hp : s.position = .concluding reason resolves) (hr : s.running = true) :
    ∃ n, (s.after (.replicate n .tick)).position = .over ∧
      (s.after (.replicate n .tick)).isQuiet = true := by
  obtain ⟨n, hdone, ⟨hpos, hrun⟩ | ⟨hpos, hrun⟩⟩ := callbacks_end perm
  · refine ⟨n + 1, ?_⟩
    have htick : (s.after (.replicate n .tick)).move .tick
        = (s.after (.replicate n .tick)).finish reason resolves := by
      rw [tick_of_running hdone (hrun.trans hr), advance, hpos, hp]
    rw [List.replicate_succ', after_concat, htick, finish_eq,
      unhookEngine_eq]
    refine ⟨rfl, ?_⟩
    simp [isQuiet, fireClosed, hdone]
  · exact ⟨n, hpos, by simp [isQuiet, hdone, hrun]⟩

/-- A future that is about to conclude ends. -/
theorem over_of_finishing {s : Session} (perm : ∀ l, (s.order l).Perm l) {resolves : Bool}
    (hp : s.position = .finishing resolves) (hr : s.running = true) :
    ∃ n, (s.after (.replicate n .tick)).position = .over ∧
      (s.after (.replicate n .tick)).isQuiet = true := by
  obtain ⟨n, hdone, ⟨hpos, hrun⟩ | ⟨hpos, hrun⟩⟩ := callbacks_end perm
  · have htick : (s.after (.replicate n .tick)).move .tick
        = (s.after (.replicate n .tick)).conclude resolves := by
      rw [tick_of_running hdone (hrun.trans hr), advance, hpos, hp]
    have hperm : ∀ l, (((s.after (.replicate n .tick)).conclude resolves).order l).Perm l := by
      rw [← htick, order_move, order_after]
      exact perm
    obtain ⟨k, hover⟩ := over_of_concluding hperm (by rw [conclude_eq]) (by
      rw [conclude_eq, settleProgress_eq]
      exact hrun.trans hr)
    refine ⟨n + (1 + k), ?_⟩
    rw [← List.replicate_append_replicate, ← List.replicate_append_replicate, after_append,
      after_append]
    rw [← htick] at hover
    exact hover
  · exact ⟨n, hpos, by simp [isQuiet, hdone, hrun]⟩

/-- The future is let go: it is dropped while there is something to run, or the executor refuses to
take it. -/
def LetsGo (s : Session) : Move → Prop
  | .drop => s.running = false ∧ s.position.CanRun
  | .spawn => s.position = .engine ∧ s.accepting = false
  | _ => False

theorem finishing_of_letsGo {s : Session} {m : Move} (h : s.LetsGo m) :
    (s.move m).position = .finishing false ∧ (s.move m).running = true := by
  cases m with
  | drop =>
    obtain ⟨hr, hp⟩ := h
    simp only [move, hr, Bool.false_eq_true, if_false, dropFuture]
    cases hpos : s.position <;> simp_all [Position.CanRun]
  | spawn =>
    obtain ⟨hp, ha⟩ := h
    simp [move, spawn, hp, ha]
  | _ => exact absurd h id

/-- **A future that is let go ends the session, whatever its callbacks do.** -/
theorem over_of_letsGo {s : Session} (perm : ∀ l, (s.order l).Perm l) {m : Move}
    (h : s.LetsGo m) :
    ∃ n, (s.after (m :: .replicate n .tick)).position = .over ∧
      (s.after (m :: .replicate n .tick)).isQuiet = true := by
  obtain ⟨hp, hr⟩ := finishing_of_letsGo h
  refine over_of_finishing ?_ hp hr
  rw [order_move]
  exact perm

end Dialogue.Session
