/-
Channels, and the listeners that tell them.

A future hears of its signal through a channel, and a listener that was registered for it tells the
channel.  Three things could go wrong on the way: the listener could be taken out by somebody else's
hook, the word could be lost between the firing and the telling, and the channel could be told on
account of another signal.  Here the first and the last are ruled out.

A registration takes two ticks, one that registers the listener and one that stores the hook, so in
between a hook is on its way, at the head of the agenda.  `Wires` says once what a task does to
hooks and channels, and two invariants are derived from it: no two hooks name the same registration,
the one on its way included; and whatever tells a channel is of the signal for which the channel was
opened.
-/
import Dialogue.Proofs.Broadcast.Hooks
import Dialogue.Proofs.Broadcast.Plays

namespace Dialogue.Broadcast

variable {r p q : Registry Callback} {order : Order}

/-! ### Channels and hooks on their way -/

namespace Task

/-- The hook that a task is to store, and for whom. -/
def stores? : Task → Option (Holder × Hook)
  | hook conn h => some (.conn conn, h)
  | future f kept => some (.future f, kept.hook)
  | _ => none

/-- The hook that is on its way to its holder. -/
def carried (t : Task) : Hook :=
  t.stores?.bind (·.2)

/-- The signal, if any, for which a task opens a channel. -/
def opens? (r : Registry Callback) : Task → Option (Option Nat)
  | step (.stopped t _) => r.tokens.get? t
  | _ => none

end Task

namespace Machine

/-- The hook that a holder holds, or else the one that is on its way. -/
def holds (m : Machine) : Option Holder → Hook
  | some h => m.registry.hookOf h
  | none => m.agenda.head?.bind Task.carried

/-- For each channel the signal for which it was opened; a token without a signal opens one for
none. -/
def origins (order : Order) (m : Machine) : Nat → List (Option Nat)
  | 0 => []
  | n + 1 => m.origins order n
    ++ ((m.after order n).agenda.head?.bind (·.opens? (m.after order n).registry)).toList

end Machine

/-! ### What a task does -/

/-- No channel is opened or told. -/
structure KeepsChannels (r q : Registry Callback) : Prop where
  told : q.told = r.told
  channels : q.channels = r.channels

/-- Nobody is given a hook, and no channel is told. -/
structure KeepsHooks (r q : Registry Callback) : Prop where
  hooks : ∀ h, q.hookOf h = r.hookOf h
  told : q.told = r.told

/-- A listener is registered for a connection, or for a future behind a new channel. -/
inductive Opens (r : Registry Callback) (t : Task) (i : Option Nat) (p : Registry Callback) :
    Listener Callback → (Hook → Task) → Prop
  | callback {k conn} (opens : t.opens? r = none) (channels : p.channels = r.channels) :
      Opens r t i p (.callback k) (.hook conn)
  | future {f token} (task : t = .step (.stopped token f)) (held : r.tokens.get? token = some i)
      (channels : p.channels = r.channels + 1) :
      Opens r t i p (.future r.channels) fun hook => .future f { hook, channel := r.channels }

/-- What becomes of signals, hooks and channels in a task, and what is to be done next. -/
inductive Wires (order : Order) (r : Registry Callback) (t : Task) (q : Registry Callback) :
    List Task → Prop
  | rests {more} (signal : ∀ j, q.signal j = r.signal j) (hooks : ∀ h, q.hookOf h = r.hookOf h)
      (kept : KeepsChannels r q) (opens : t.opens? r = none)
      (task : ∀ i c, t ≠ .notify i (.future c)) (next : ∀ u ∈ more, ∃ s, u = .step s) :
      Wires order r t q more
  | tells {i c} (task : t = .notify i (.future c)) (registry : q = r.tell c) : Wires order r t q []
  | registers {i n slots l store} (armed : r.signal i = .armed n slots)
      (signal : ∀ j,
        q.signal j = if j = i then .armed (n + 1) (slots ++ [(n, l)]) else r.signal j)
      (kept : KeepsHooks r q) (task : t.isNotify = false) (channel : Opens r t (some i) q l store) :
      Wires order r t q [store (some (i, n))]
  /-- The signal has fired, so the listener is to run. -/
  | late {i l store} (fired : r.signal i = .fired) (signal : ∀ j, q.signal j = r.signal j)
      (kept : KeepsHooks r q) (task : t.isNotify = false) (channel : Opens r t (some i) q l store) :
      Wires order r t q [.notify i l, store none]
  /-- There is no signal. -/
  | drops {l store} (signal : ∀ j, q.signal j = r.signal j) (kept : KeepsHooks r q)
      (task : t.isNotify = false) (channel : Opens r t none q l store) :
      Wires order r t q [store none]
  | fires {s i} (source : r.sources.get? s = some i) (held : i < r.signals.length)
      (task : t = .step (.fire s)) (registry : q = (r.fire i).2) :
      Wires order r t q ((order i (r.fire i).1).map (.notify i))
  | releases {h} (puts : Puts r q h none) (kept : KeepsChannels r q) (opens : t.opens? r = none)
      (task : t.isNotify = false) : Wires order r t q []
  | stores {h hook} (task : t.stores? = some (h, hook)) (puts : Puts r q h hook)
      (kept : KeepsChannels r q) : Wires order r t q []

namespace KeepsChannels

theorem unhook (h : KeepsChannels r q) (hook : Hook) : KeepsChannels r (q.unhook hook) := by
  cases hook with
  | none => exact h
  | some own => exact ⟨h.told, h.channels⟩

/-- Hooks and futures change, and then a hook lets go. -/
theorem letGo (r : Registry Callback) (hooks : Table Hook) (futures : Table Future) (hook : Hook) :
    KeepsChannels r (Registry.unhook { r with hooks, futures } hook) := by
  have hsame : KeepsChannels r { r with hooks, futures } := ⟨rfl, rfl⟩
  exact hsame.unhook hook

theorem disconnect (r : Registry Callback) (conn : Int) : KeepsChannels r (r.disconnect conn) := by
  unfold Registry.disconnect
  split
  · exact ⟨rfl, rfl⟩
  · exact letGo r _ _ _

theorem dropHook (r : Registry Callback) (conn : Int) : KeepsChannels r (r.dropHook conn) := by
  unfold Registry.dropHook
  split
  · exact ⟨rfl, rfl⟩
  · exact letGo r _ _ _

theorem dropFuture (r : Registry Callback) (f : Int) : KeepsChannels r (r.dropFuture f) := by
  unfold Registry.dropFuture
  split
  · exact ⟨rfl, rfl⟩
  · exact letGo r _ _ _

end KeepsChannels

/-- A step that touches neither signals nor hooks. -/
theorem wires_of_same {s : Step} (signal : ∀ j, q.signal j = r.signal j)
    (hooks : q.hooks = r.hooks) (futures : q.futures = r.futures) (kept : KeepsChannels r q)
    (opens : (Task.step s).opens? r = none) : Wires order r (.step s) q [] :=
  .rests signal (Registry.hookOf_of_same hooks futures) kept opens nofun nofun

theorem wires_poll (f : Int) (future : Future) (hf : r.futures.get? f = some future) :
    Wires order r (.step (.poll f)) (r.pollFuture f future).2 [] := by
  unfold Registry.pollFuture
  split
  · exact wires_of_same (fun _ => rfl) rfl rfl ⟨rfl, rfl⟩ rfl
  · split
    · have hputs := Puts.storeFuture r f { future with hook := none, finished := true }
      rw [Registry.storeFuture, hf] at hputs
      exact .releases hputs (.letGo r _ _ _) rfl rfl
    · exact wires_of_same (fun _ => rfl) rfl rfl ⟨rfl, rfl⟩ rfl

theorem Opens.of_same {t : Task} {i : Option Nat} {l : Listener Callback} {store : Hook → Task}
    (h : Opens r t i p l store) (channels : q.channels = p.channels) : Opens r t i q l store := by
  cases h with
  | callback opens same => exact .callback opens (channels.trans same)
  | future task held same => exact .future task held (channels.trans same)

theorem wires_enrol {t : Task} {i : Option Nat} {l : Listener Callback} {store : Hook → Task}
    (signals : p.signals = r.signals) (hooks : p.hooks = r.hooks) (futures : p.futures = r.futures)
    (told : p.told = r.told) (held : ∀ k, i = some k → k < r.signals.length)
    (task : t.isNotify = false) (channel : Opens r t i p l store) :
    Wires order r t (p.enrol i l store).1 (p.enrol i l store).2 := by
  have hsignal : ∀ j, p.signal j = r.signal j := Registry.signal_of_same signals
  have hkept : KeepsHooks r p := ⟨Registry.hookOf_of_same hooks futures, told⟩
  have henrols := enrols p i l store
  generalize p.enrols? i l = mark at henrols
  generalize p.enrol i l store = result at henrols ⊢
  obtain ⟨q, more⟩ := result
  cases henrols with
  | @registers j n slots armed registry =>
    subst registry
    have hj := held j rfl
    rw [← signals] at hj
    refine .registers ((hsignal j).symm.trans armed) ?_ ⟨hkept.hooks, told⟩ task
      (channel.of_same rfl)
    intro k
    rw [Registry.signal_setSignal p k _ hj, hsignal]
  | @late j fired registry =>
    subst registry
    exact .late ((hsignal j).symm.trans fired) hsignal hkept task channel
  | drops registry =>
    subst registry
    exact .drops hsignal hkept task channel

theorem wires_step (hr : r.IsMade) (s : Step) :
    Wires order r (.step s) (s.begin order r).1 (s.begin order r).2 := by
  cases s with
  | source s => exact wires_of_same (Registry.signal_create r s) rfl rfl ⟨rfl, rfl⟩ rfl
  | dropSource s =>
    simp only [Step.begin]
    split <;> exact wires_of_same (fun _ => rfl) rfl rfl ⟨rfl, rfl⟩ rfl
  | token s t =>
    simp only [Step.begin]
    split <;> exact wires_of_same (fun _ => rfl) rfl rfl ⟨rfl, rfl⟩ rfl
  | defaultToken t => exact wires_of_same (fun _ => rfl) rfl rfl ⟨rfl, rfl⟩ rfl
  | cloneToken t target =>
    simp only [Step.begin]
    split <;> exact wires_of_same (fun _ => rfl) rfl rfl ⟨rfl, rfl⟩ rfl
  | dropToken t =>
    simp only [Step.begin]
    split <;> exact wires_of_same (fun _ => rfl) rfl rfl ⟨rfl, rfl⟩ rfl
  | register s conn name body =>
    simp only [Step.begin]
    cases hs : r.sources.get? s with
    | none => exact wires_of_same (fun _ => rfl) rfl rfl ⟨rfl, rfl⟩ rfl
    | some i =>
      refine wires_enrol rfl rfl rfl rfl ?_ rfl (.callback rfl rfl)
      rintro _ ⟨⟩
      exact hr.sources s i hs
  | registerToken t conn name body =>
    simp only [Step.begin]
    cases ht : r.tokens.get? t with
    | none => exact wires_of_same (fun _ => rfl) rfl rfl ⟨rfl, rfl⟩ rfl
    | some i => exact wires_enrol rfl rfl rfl rfl (hr.of_token ht) rfl (.callback rfl rfl)
  | fire s =>
    simp only [Step.begin]
    cases hs : r.sources.get? s with
    | none => exact wires_of_same (fun _ => rfl) rfl rfl ⟨rfl, rfl⟩ rfl
    | some i => exact .fires hs (hr.sources s i hs) rfl rfl
  | disconnect conn => exact .releases (.disconnect r conn) (.disconnect r conn) rfl rfl
  | dropConn conn => exact .releases (.dropHook r conn) (.dropHook r conn) rfl rfl
  | stopped t f =>
    simp only [Step.begin]
    cases ht : r.tokens.get? t with
    | none => exact wires_of_same (fun _ => rfl) rfl rfl ⟨rfl, rfl⟩ ht
    | some i => exact wires_enrol rfl rfl rfl rfl (hr.of_token ht) rfl (.future rfl ht rfl)
  | poll f =>
    simp only [Step.begin]
    cases hf : r.futures.get? f with
    | none => exact wires_of_same (fun _ => rfl) rfl rfl ⟨rfl, rfl⟩ rfl
    | some future => exact wires_poll f future hf
  | dropFuture f => exact .releases (.dropFuture r f) (.dropFuture r f) rfl rfl
  | panic message => exact wires_of_same (fun _ => rfl) rfl rfl ⟨rfl, rfl⟩ rfl
  | unknown => exact wires_of_same (fun _ => rfl) rfl rfl ⟨rfl, rfl⟩ rfl

/-- **Every task does this to signals, hooks and channels.** -/
theorem wires (hr : r.IsMade) (t : Task) :
    Wires order r t (t.begin order r).1 (t.begin order r).2 := by
  cases t with
  | step s => exact wires_step hr s
  | notify i l =>
    cases l with
    | callback k =>
      refine .rests (fun _ => rfl) (fun _ => rfl) ⟨rfl, rfl⟩ rfl ?_ ?_
      · rintro j c ⟨⟩
      · intro u hu
        obtain ⟨s, -, rfl⟩ := List.mem_map.mp hu
        exact ⟨s, rfl⟩
    | future c => exact .tells rfl rfl
  | hook conn h =>
    exact .stores rfl (.storeHook r conn h) (.letGo r _ _ _)
  | future f kept => exact .stores rfl (.storeFuture r f kept) (.letGo r _ _ _)

/-- A signal that does not stay as it is fires, and somebody holds it then. -/
theorem isFired_of_wires {t : Task} {more : List Task} (hw : Wires order r t q more) (i : Nat) :
    (q.signal i).isFired = (r.signal i).isFired
      ∨ (q.signal i).isFired = true ∧ r.isHeld i = true := by
  cases hw with
  | rests signal _ _ _ _ _ => exact .inl (by rw [signal])
  | tells _ registry =>
    subst registry
    exact .inl rfl
  | @registers j n slots l store armed signal _ _ _ =>
    refine .inl ?_
    rw [signal]
    split
    · next hi =>
      rw [hi, armed]
      rfl
    · rfl
  | late _ signal _ _ _ => exact .inl (by rw [signal])
  | drops signal _ _ _ => exact .inl (by rw [signal])
  | @fires s j source held _ registry =>
    have hfire : (r.fire j).2.signal i = if i = j then .fired else r.signal i :=
      Registry.signal_setSignal r i _ held
    rw [registry, hfire]
    by_cases hi : i = j
    · subst hi
      rw [if_pos rfl]
      refine .inr ⟨rfl, ?_⟩
      have hmem : i ∈ r.sources.values := Table.mem_values_of_get? source
      simp [Registry.isHeld, hmem]
    · rw [if_neg hi]
      exact .inl rfl
  | releases hputs _ _ _ => exact .inl (by rw [hputs.signal, isFired_without])
  | stores _ hputs _ => exact .inl (by rw [hputs.signal, isFired_without])

/-! ### No two hooks name one registration -/

/-- Every registration is named by one hook at most, the one on its way included. -/
structure Distinct (m : Machine) : Prop where
  made : m.registry.IsMade
  /-- Only at the head of the agenda a hook is on its way. -/
  tail : ∀ t ∈ m.agenda.tail, t.carried = none
  unique : ∀ a b x, m.holds a = some x → m.holds b = some x → a = b
  fresh : ∀ a i id n slots, m.holds a = some (i, id) →
    m.registry.signal i = .armed n slots → id < n

namespace Machine

theorem holds_none_of_quiet {m : Machine} (h : ∀ t ∈ m.agenda, t.carried = none) :
    m.holds none = none := by
  show m.agenda.head?.bind Task.carried = none
  cases hhead : m.agenda.head? with
  | none => rfl
  | some t => exact h t (List.mem_of_head? hhead)

end Machine

namespace Opens

variable {t : Task} {i : Option Nat} {l : Listener Callback} {store : Hook → Task}

/-- The task that is to store a hook carries it. -/
theorem carried (h : Opens r t i p l store) (hook : Hook) : (store hook).carried = hook := by
  cases h with
  | callback _ _ => rfl
  | future _ _ _ => rfl

theorem store_ne (h : Opens r t i p l store) (hook : Hook) (j : Nat) (k : Listener Callback) :
    store hook ≠ .notify j k := by
  cases h with
  | callback _ _ => nofun
  | future _ _ _ => nofun

variable {o : List (Option Nat)}

/-- A channel is opened with a listener for a future, and with no other. -/
theorem channels (h : Opens r t i p l store) (ho : r.channels = o.length) :
    p.channels = (o ++ (t.opens? r).toList).length := by
  cases h with
  | callback opens channels => rw [opens, channels, Option.toList_none, List.append_nil, ho]
  | future task held channels =>
    have hopens : t.opens? r = some i := by
      rw [task]
      exact held
    rw [hopens, channels, Option.toList_some, List.length_append, ho]
    rfl

theorem origin {c : Nat} (h : Opens r t i p (.future c) store) (ho : r.channels = o.length) :
    (o ++ (t.opens? r).toList)[c]? = some i := by
  cases h with
  | future task held _ =>
    have hopens : t.opens? r = some i := by
      rw [task]
      exact held
    rw [hopens, ho, Option.toList_some]
    simp

end Opens

namespace Distinct

variable {m m' : Machine}

/-- No hook is on its way, and no holder was given one. -/
theorem of_fewer (hd : Distinct m) (made : m'.registry.IsMade)
    (quiet : ∀ t ∈ m'.agenda, t.carried = none)
    (fewer : ∀ h x, m'.registry.hookOf h = some x → m.registry.hookOf h = some x)
    (numbers : ∀ i n slots, m'.registry.signal i = .armed n slots →
      ∃ old, m.registry.signal i = .armed n old) : Distinct m' := by
  have hnone := Machine.holds_none_of_quiet quiet
  have hholds : ∀ a x, m'.holds a = some x → m.holds a = some x := by
    rintro (_ | h) x hx
    · rw [hnone] at hx
      cases hx
    · exact fewer h x hx
  refine ⟨made, fun t ht => quiet t (List.mem_of_mem_tail ht), ?_, ?_⟩
  · exact fun a b x ha hb => hd.unique a b x (hholds a x ha) (hholds b x hb)
  · intro a i id n slots ha harmed
    obtain ⟨old, hold⟩ := numbers i n slots harmed
    exact hd.fresh a i id n old (hholds a _ ha) hold

variable {t : Task} {rest more : List Task}

/-- A listener is registered, and its hook is on its way. -/
theorem registers (hd : Distinct ⟨r, t :: rest⟩) (made : q.IsMade) {u : Task} {i n : Nat}
    {slots : List (Nat × Listener Callback)} {l : Listener Callback}
    (harmed : r.signal i = .armed n slots)
    (signal : ∀ j, q.signal j = if j = i then .armed (n + 1) (slots ++ [(n, l)]) else r.signal j)
    (hooks : ∀ h, q.hookOf h = r.hookOf h) (hu : u.carried = some (i, n)) :
    Distinct ⟨q, u :: rest⟩ := by
  have hown : ∀ h x, q.hookOf h = some x →
      (⟨r, t :: rest⟩ : Machine).holds (some h) = some x :=
    fun h x hx => (hooks h).symm.trans hx
  -- the number is new, so no other hook names it
  have hnew : ∀ h, q.hookOf h ≠ some (i, n) := by
    intro h hx
    exact absurd (hd.fresh _ i n n slots (hown h _ hx) harmed) (Nat.lt_irrefl n)
  refine ⟨made, hd.tail, ?_, ?_⟩
  · rintro (_ | g) (_ | h) x ha hb
    · rfl
    · have hx : u.carried = some x := ha
      rw [hu] at hx
      cases hx
      exact absurd hb (hnew h)
    · have hx : u.carried = some x := hb
      rw [hu] at hx
      cases hx
      exact absurd ha (hnew g)
    · exact hd.unique _ _ x (hown g x ha) (hown h x hb)
  · rintro (_ | h) j id k left ha hk
    · have hx : u.carried = some (j, id) := ha
      rw [hu] at hx
      cases hx
      have hsignal : q.signal i = .armed (n + 1) (slots ++ [(n, l)]) :=
        (signal i).trans (if_pos rfl)
      rw [hsignal] at hk
      cases hk
      exact Nat.lt_succ_self n
    · have hk' : (if j = i then .armed (n + 1) (slots ++ [(n, l)]) else r.signal j)
          = .armed k left :=
        (signal j).symm.trans hk
      by_cases hj : j = i
      · subst hj
        rw [if_pos rfl] at hk'
        cases hk'
        have hlt := hd.fresh _ j id n slots (hown h _ ha) harmed
        omega
      · rw [if_neg hj] at hk'
        exact hd.fresh _ j id k left (hown h _ ha) hk'

/-- A hook arrives at its holder, who lets go of the one that it had. -/
theorem stores (hd : Distinct ⟨r, t :: rest⟩) (made : q.IsMade) {h : Holder} {hook : Hook}
    (task : t.stores? = some (h, hook)) (hputs : Puts r q h hook) : Distinct ⟨q, rest⟩ := by
  have hcarried : (⟨r, t :: rest⟩ : Machine).holds none = hook := by
    show t.stores?.bind (·.2) = hook
    rw [task]
    rfl
  have hnone : (⟨q, rest⟩ : Machine).holds none = none := Machine.holds_none_of_quiet hd.tail
  -- where a hook was before
  have hbefore : ∀ g x, q.hookOf g = some x →
      (⟨r, t :: rest⟩ : Machine).holds (if g = h then none else some g) = some x := by
    intro g x hx
    by_cases hg : g = h
    · rw [if_pos hg, hcarried, ← hputs.own, ← hg, hx]
    · rw [if_neg hg]
      exact (hputs.others g hg).symm.trans hx
  refine ⟨made, fun u hu => hd.tail u (List.mem_of_mem_tail hu), ?_, ?_⟩
  · rintro (_ | a) (_ | b) x ha hb
    · rfl
    · rw [hnone] at ha
      cases ha
    · rw [hnone] at hb
      cases hb
    · have hsame := hd.unique _ _ x (hbefore a x ha) (hbefore b x hb)
      by_cases hah : a = h
      · by_cases hbh : b = h
        · rw [hah, hbh]
        · rw [if_pos hah, if_neg hbh] at hsame
          cases hsame
      · by_cases hbh : b = h
        · rw [if_neg hah, if_pos hbh] at hsame
          cases hsame
        · rwa [if_neg hah, if_neg hbh] at hsame
  · rintro (_ | a) i id n slots ha harmed
    · rw [hnone] at ha
      cases ha
    · have harmed' : without (r.hookOf h) i (r.signal i) = .armed n slots :=
        (hputs.signal i).symm.trans harmed
      obtain ⟨old, hold⟩ := armed_of_without harmed'
      exact hd.fresh _ i id n old (hbefore a _ ha) hold

theorem next (hd : Distinct ⟨r, t :: rest⟩) (made : q.IsMade) (hw : Wires order r t q more) :
    Distinct ⟨q, more ++ rest⟩ := by
  have hquiet : ∀ {more : List Task}, (∀ u ∈ more, u.carried = none) →
      ∀ u ∈ more ++ rest, u.carried = none := by
    intro more hmore u hu
    rcases List.mem_append.mp hu with hu | hu
    · exact hmore u hu
    · exact hd.tail u hu
  have hsame : ∀ i n slots, r.signal i = .armed n slots → ∃ old, r.signal i = .armed n old :=
    fun _ _ slots h => ⟨slots, h⟩
  cases hw with
  | rests signal hooks _ _ _ steps =>
    refine hd.of_fewer made (hquiet ?_) ?_ ?_
    · intro u hu
      obtain ⟨s, rfl⟩ := steps u hu
      rfl
    · exact fun h x hx => (hooks h).symm.trans hx
    · exact fun i n slots h => hsame i n slots ((signal i).symm.trans h)
  | tells _ registry =>
    subst registry
    exact hd.of_fewer made (hquiet nofun)
      (fun h x hx => (Registry.hookOf_of_same rfl rfl h).symm.trans hx) hsame
  | registers armed signal kept _ channel =>
    exact hd.registers made armed signal kept.hooks (channel.carried _)
  | late _ signal kept _ channel =>
    refine hd.of_fewer made (hquiet ?_) (fun h x hx => (kept.hooks h).symm.trans hx)
      (fun k n slots h => hsame k n slots ((signal k).symm.trans h))
    intro u hu
    rcases List.mem_cons.mp hu with rfl | hu
    · rfl
    · rw [List.mem_singleton.mp hu, channel.carried]
  | drops signal kept _ channel =>
    refine hd.of_fewer made (hquiet ?_) (fun h x hx => (kept.hooks h).symm.trans hx)
      (fun k n slots h => hsame k n slots ((signal k).symm.trans h))
    intro u hu
    rw [List.mem_singleton.mp hu, channel.carried]
  | @fires s i _ held _ registry =>
    subst registry
    refine hd.of_fewer made (hquiet ?_) ?_ ?_
    · intro u hu
      obtain ⟨l, -, rfl⟩ := List.mem_map.mp hu
      rfl
    · exact fun h x hx => (Registry.hookOf_of_same rfl rfl h).symm.trans hx
    · intro j n slots harmed
      have hfire : (r.fire i).2.signal j = if j = i then .fired else r.signal j :=
        Registry.signal_setSignal r j _ held
      rw [hfire] at harmed
      split at harmed
      · cases harmed
      · exact ⟨slots, harmed⟩
  | @releases h hputs _ _ _ =>
    refine hd.of_fewer made (hquiet nofun) ?_ ?_
    · intro g x hx
      by_cases hg : g = h
      · rw [hg] at hx
        cases hputs.own.symm.trans hx
      · exact (hputs.others g hg).symm.trans hx
    · intro i n slots harmed
      exact armed_of_without ((hputs.signal i).symm.trans harmed)
  | stores task hputs _ => exact hd.stores made task hputs

end Distinct

/-! ### Every word is of the signal for which its channel was opened -/

/-- A listener runs when its task is done, and in no other. -/
theorem eq_notify_of_ran (hr : r.IsMade) {t : Task} {i : Nat} {l : Listener Callback}
    (h : t.mark? r = some (i, .ran l)) : t = .notify i l := by
  cases ht : t.isNotify with
  | true =>
    cases t with
    | notify j k =>
      cases h
      rfl
    | _ => cases ht
  | false =>
    have hbegins : Begins Order.registration r t _ _ _ := begins hr ht
    rw [h] at hbegins
    generalize hmark : some (i, Mark.ran l) = mark at hbegins
    generalize t.begin Order.registration r = result at hbegins
    obtain ⟨q, more⟩ := result
    cases hbegins with
    | rests _ _ => cases hmark
    | creates _ => cases hmark
    | @enrols p j k store _ _ _ _ _ _ =>
      have henrols := enrols p j k store
      rw [← hmark] at henrols
      generalize (p.enrol j k store).1 = q, (p.enrol j k store).2 = more at henrols
      cases henrols
    | fires _ _ => cases hmark
    | @releases p hook _ _ _ => cases hook <;> cases hmark

/-- The channels were opened for the signals in `o`, and `g` is all that happened. -/
structure Sourced (o : List (Option Nat)) (g : List (Nat × Mark)) (m : Machine) : Prop where
  channels : m.registry.channels = o.length
  slot : ∀ i id c, (id, .future c) ∈ (m.registry.signal i).slots → o[c]? = some (some i)
  due : ∀ i c, .notify i (.future c) ∈ m.agenda → o[c]? = some (some i)
  ran : ∀ i c, (i, .ran (.future c)) ∈ g → o[c]? = some (some i)
  told : ∀ c, c ∈ m.registry.told ↔ ∃ i, (i, .ran (.future c)) ∈ g

/-- A channel keeps the signal for which it was opened. -/
theorem getElem?_of_opened {o : List (Option Nat)} {c : Nat} {s : Option Nat} (h : o[c]? = some s)
    (x : List (Option Nat)) : (o ++ x)[c]? = some s := by
  rw [List.getElem?_append_left (List.getElem?_eq_some_iff.mp h).1, h]

namespace Sourced

variable {o : List (Option Nat)} {g : List (Nat × Mark)} {t : Task} {rest more : List Task}

/-- Nothing is told, and what is registered or to be told is of the right signal. -/
theorem of_quiet (hs : Sourced o g ⟨r, t :: rest⟩) {x : List (Option Nat)}
    {c : Option (Nat × Mark)} (channels : q.channels = (o ++ x).length)
    (slot : ∀ i id c, (id, .future c) ∈ (q.signal i).slots → (o ++ x)[c]? = some (some i))
    (due : ∀ i c, .notify i (.future c) ∈ more → (o ++ x)[c]? = some (some i))
    (ran : ∀ i l, c ≠ some (i, .ran (.future l))) (told : q.told = r.told) :
    Sourced (o ++ x) (g ++ c.toList) ⟨q, more ++ rest⟩ := by
  have hg : ∀ i k, (i, .ran (.future k)) ∈ g ++ c.toList ↔ (i, .ran (.future k)) ∈ g := by
    intro i k
    rw [List.mem_append, Option.mem_toList]
    exact ⟨fun h => h.resolve_right (ran i k), .inl⟩
  refine ⟨channels, slot, ?_, ?_, ?_⟩
  · intro i k hmem
    rcases List.mem_append.mp hmem with hnew | hold
    · exact due i k hnew
    · exact getElem?_of_opened (hs.due i k (List.mem_cons_of_mem _ hold)) x
  · intro i k hmem
    exact getElem?_of_opened (hs.ran i k ((hg i k).mp hmem)) x
  · intro k
    show k ∈ q.told ↔ _
    rw [told]
    refine (hs.told k).trans ?_
    simp only [hg]

/-- A future hears, and the word is on record. -/
theorem tells {i c : Nat} (hs : Sourced o g ⟨r, .notify i (.future c) :: rest⟩) :
    Sourced (o ++ []) (g ++ [(i, .ran (.future c))]) ⟨r.tell c, rest⟩ := by
  rw [List.append_nil]
  refine ⟨hs.channels, hs.slot,
    fun j k hmem => hs.due j k (List.mem_cons_of_mem _ hmem), ?_, ?_⟩
  · intro j k hmem
    rcases List.mem_append.mp hmem with hold | hnew
    · exact hs.ran j k hold
    · cases List.mem_singleton.mp hnew
      exact hs.due i c List.mem_cons_self
  · intro k
    show k ∈ c :: r.told ↔ _
    rw [List.mem_cons]
    have htold : k ∈ r.told ↔ _ := hs.told k
    rw [htold]
    refine ⟨?_, ?_⟩
    · rintro (rfl | ⟨j, hold⟩)
      · exact ⟨i, List.mem_append_right _ (List.mem_singleton.mpr rfl)⟩
      · exact ⟨j, List.mem_append_left _ hold⟩
    · rintro ⟨j, hmem⟩
      rcases List.mem_append.mp hmem with hold | hnew
      · exact .inr ⟨j, hold⟩
      · cases List.mem_singleton.mp hnew
        exact .inl rfl

/-- The slots are of the right signals, also the one that is taken. -/
theorem slot_of_registered {x : List (Option Nat)} {i j n id c : Nat}
    {slots : List (Nat × Listener Callback)} {l : Listener Callback}
    (hs : Sourced o g ⟨r, rest⟩) (armed : r.signal i = .armed n slots)
    (hl : l = .future c → (o ++ x)[c]? = some (some i))
    (hmem : (id, .future c) ∈
      (if j = i then Signal.armed (n + 1) (slots ++ [(n, l)]) else r.signal j).slots) :
    (o ++ x)[c]? = some (some j) := by
  by_cases hj : j = i
  · subst hj
    rw [if_pos rfl] at hmem
    rcases List.mem_append.mp hmem with hold | hnew
    · refine getElem?_of_opened (hs.slot j id c ?_) x
      rw [armed]
      exact hold
    · cases List.mem_singleton.mp hnew
      exact hl rfl
  · rw [if_neg hj] at hmem
    exact getElem?_of_opened (hs.slot j id c hmem) x

/-- A signal that fires tells the futures that were made for it. -/
theorem source_of_fired {i c : Nat} (hs : Sourced o g ⟨r, rest⟩)
    (horder : ∀ i ls, (order i ls).Perm ls) (hl : .future c ∈ order i (r.fire i).1) :
    o[c]? = some (some i) := by
  have hhanded := (horder i _).mem_iff.mp hl
  obtain ⟨⟨id, l⟩, hslot, heq⟩ := List.mem_map.mp hhanded
  cases heq
  exact hs.slot i id c hslot

theorem next (hs : Sourced o g ⟨r, t :: rest⟩) (hr : r.IsMade)
    (horder : ∀ i ls, (order i ls).Perm ls) (hw : Wires order r t q more) :
    Sourced (o ++ (t.opens? r).toList) (g ++ (t.mark? r).toList) ⟨q, more ++ rest⟩ := by
  have hquiet : (∀ i c, t ≠ .notify i (.future c)) →
      ∀ i c, t.mark? r ≠ some (i, .ran (.future c)) :=
    fun h i c hmark => h i c (eq_notify_of_ran hr hmark)
  have hother : t.isNotify = false → ∀ i c, t ≠ .notify i (.future c) := by
    rintro h i c rfl
    cases h
  -- the slots that stay are of the right signals
  have hslots : ∀ i id c, (id, .future c) ∈ (r.signal i).slots →
      (o ++ (t.opens? r).toList)[c]? = some (some i) :=
    fun i id c hmem => getElem?_of_opened (hs.slot i id c hmem) _
  have hsame : t.opens? r = none → ∀ {n : Nat}, n = r.channels →
      n = (o ++ (t.opens? r).toList).length := by
    intro h n hn
    rw [h, Option.toList_none, List.append_nil, hn]
    exact hs.channels
  cases hw with
  | rests signal hooks kept opens task steps =>
    refine hs.of_quiet (hsame opens kept.channels) ?_ ?_ (hquiet task) kept.told
    · intro i id c hmem
      rw [signal] at hmem
      exact hslots i id c hmem
    · intro i c hmem
      obtain ⟨s, heq⟩ := steps _ hmem
      cases heq
  | tells task registry =>
    subst task registry
    exact hs.tells
  | @registers i n slots l store armed signal kept task channel =>
    refine hs.of_quiet (channel.channels hs.channels) ?_ ?_ (hquiet (hother task)) kept.told
    · intro k id c hmem
      rw [signal] at hmem
      refine hs.slot_of_registered armed ?_ hmem
      rintro rfl
      exact channel.origin hs.channels
    · intro k c hmem
      exact absurd (List.mem_singleton.mp hmem).symm (channel.store_ne _ _ _)
  | @late i l store fired signal kept task channel =>
    refine hs.of_quiet (channel.channels hs.channels) ?_ ?_ (hquiet (hother task)) kept.told
    · intro k id c hmem
      rw [signal] at hmem
      exact hslots k id c hmem
    · intro k c hmem
      rcases List.mem_cons.mp hmem with heq | hmem
      · cases heq
        exact channel.origin hs.channels
      · exact absurd (List.mem_singleton.mp hmem).symm (channel.store_ne _ _ _)
  | @drops l store signal kept task channel =>
    refine hs.of_quiet (channel.channels hs.channels) ?_ ?_ (hquiet (hother task)) kept.told
    · intro k id c hmem
      rw [signal] at hmem
      exact hslots k id c hmem
    · intro k c hmem
      exact absurd (List.mem_singleton.mp hmem).symm (channel.store_ne _ _ _)
  | @fires s i source held task registry =>
    subst task registry
    refine hs.of_quiet (hsame rfl rfl) ?_ ?_ (hquiet nofun) rfl
    · intro j id c hmem
      have hfire : (r.fire i).2.signal j = if j = i then .fired else r.signal j :=
        Registry.signal_setSignal r j _ held
      rw [hfire] at hmem
      split at hmem
      · cases hmem
      · exact hslots j id c hmem
    · intro j c hmem
      obtain ⟨l, hl, heq⟩ := List.mem_map.mp hmem
      cases heq
      exact getElem?_of_opened (hs.source_of_fired horder hl) _
  | @releases h hputs kept opens task =>
    refine hs.of_quiet (hsame opens kept.channels) ?_ nofun (hquiet (hother task)) kept.told
    intro i id c hmem
    rw [hputs.signal, slots_without] at hmem
    exact hslots i id c (List.mem_of_mem_filter hmem)
  | @stores h hook task hputs kept =>
    have hopens : t.opens? r = none := by
      cases t with
      | step s => cases task
      | _ => rfl
    have hnotify : ∀ i c, t ≠ .notify i (.future c) := by
      rintro i c rfl
      cases task
    refine hs.of_quiet (hsame hopens kept.channels) ?_ nofun (hquiet hnotify) kept.told
    intro i id c hmem
    rw [hputs.signal, slots_without] at hmem
    exact hslots i id c (List.mem_of_mem_filter hmem)

end Sourced

end Dialogue.Broadcast
