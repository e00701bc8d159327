/-
Who holds which registration.

A registration is made for a holder, a connection or a future, and its number is put into the hook
of that holder.  The signal keeps the number with the listener, the holder keeps it with the signal,
and nothing else joins the two.  What holds them together is that no number is given out twice: a
hook that names a registration names the one that was made for its holder, and so, when a hook lets
go, it takes out its own listener and no other.

The induction is on the run.  `Alters` says once what an operation does to signals and hooks, and
`Tally` is what it preserves: the registrations an armed signal has are those, of all that were made
on it, whose holders still hold them.
-/
import Dialogue.Proofs.Broadcast.Run

namespace Dialogue.Broadcast

/-- Whoever holds a hook. -/
inductive Holder
  | conn (c : Int)
  | future (f : Int)
deriving DecidableEq

/-- A registration: its number, its listener, and for whom it was made. -/
structure Registration where
  id : Nat
  listener : Listener Callback
  holder : Holder

/-- A signal once a hook let go of its registration. -/
def without (hook : Hook) (j : Nat) (s : Signal (Listener Callback)) : Signal (Listener Callback) :=
  match hook with
  | none => s
  | some (i, id) => if j = i then s.disconnect id else s

theorem slots_without (hook : Hook) (j : Nat) (s : Signal (Listener Callback)) :
    (without hook j s).slots = s.slots.filter fun e => hook ≠ some (j, e.1) := by
  have keeps : (∀ e : Nat × Listener Callback, hook ≠ some (j, e.1)) →
      s.slots = s.slots.filter fun e => hook ≠ some (j, e.1) := by
    intro h
    rw [eq_comm, List.filter_eq_self]
    exact fun e _ => decide_eq_true (h e)
  cases hook with
  | none => exact keeps nofun
  | some own =>
    obtain ⟨i, id⟩ := own
    by_cases hj : j = i
    · subst hj
      simp only [without, if_true, Signal.slots_disconnect]
      refine List.filter_congr fun e _ => ?_
      by_cases he : e.1 = id
      · simp [he]
      · have hne : id ≠ e.1 := fun h => he h.symm
        simp [he, hne]
    · simp only [without, if_neg hj]
      refine keeps ?_
      rintro e ⟨⟩
      exact hj rfl

theorem isFired_without (hook : Hook) (j : Nat) (s : Signal (Listener Callback)) :
    (without hook j s).isFired = s.isFired := by
  unfold without
  split
  · rfl
  · split
    · exact Signal.isFired_disconnect _ _
    · rfl

/-- Letting go of a registration gives out no number. -/
theorem armed_of_without {hook : Hook} {j n : Nat} {s : Signal (Listener Callback)}
    {slots : List (Nat × Listener Callback)} (h : without hook j s = .armed n slots) :
    ∃ slots, s = .armed n slots := by
  cases s with
  | armed m old =>
    refine ⟨old, ?_⟩
    unfold without at h
    split at h
    · cases h
      rfl
    · split at h
      · cases h
        rfl
      · cases h
        rfl
  | fired =>
    unfold without at h
    split at h
    · cases h
    · split at h
      · cases h
      · cases h

namespace Registry

variable (r : Registry Callback)

/-- The hook that a holder holds; whoever is not there holds none. -/
def hookOf : Holder → Hook
  | .conn c => (r.hooks.get? c).getD none
  | .future f => (r.futures.get? f).bind (·.hook)

/-- The registration that is made for a holder, unless the signal has fired or there is none. -/
def enrolled? (i : Option Nat) (l : Listener Callback) (h : Holder) :
    Option (Nat × Registration) :=
  i.bind fun i => ((r.signal i).register? l).map fun p => (i, ⟨p.1, l, h⟩)

/-- The registration that an operation makes, with its signal. -/
def registered? : Op → Option (Nat × Registration)
  | .register s conn k =>
    (r.sources.get? s).bind fun i => r.enrolled? (some i) (.callback k) (.conn conn)
  | .registerToken t conn k =>
    (r.tokens.get? t).bind fun i => r.enrolled? i (.callback k) (.conn conn)
  | .stopped t f => (r.tokens.get? t).bind fun i => r.enrolled? i (.future r.channels) (.future f)
  | _ => none

/-- All registrations that are made on a signal in a run. -/
def registrationsOn (i : Nat) (ops : List Op) : List Registration :=
  seen step (fun r op => (r.registered? op).bind (on? i)) r ops

end Registry

/-- The holder that an operation has let go of its registration. -/
def Op.lettingGo? : Op → Option Holder
  | .disconnect conn | .dropConn conn | .storeEmpty conn => some (.conn conn)
  | .dropFuture f => some (.future f)
  | _ => none

variable {r p q : Registry Callback}

/-! ### Exchanging a hook -/

/-- A holder is given a hook, and lets go of the one that it had. -/
structure Puts (r q : Registry Callback) (h : Holder) (hook : Hook) : Prop where
  own : q.hookOf h = hook
  others : ∀ g, g ≠ h → q.hookOf g = r.hookOf g
  signal : ∀ j, q.signal j = without (r.hookOf h) j (r.signal j)

namespace Registry

theorem signal_unhook_eq (r : Registry Callback) (hook : Hook) (j : Nat) :
    (r.unhook hook).signal j = without hook j (r.signal j) := by
  rw [signal_unhook]
  cases hook with
  | none => rfl
  | some own =>
    obtain ⟨i, id⟩ := own
    by_cases hj : j = i
    · simp [without, hj]
    · simp [without, hj]

theorem hookOf_unhook (r : Registry Callback) (hook : Hook) (h : Holder) :
    (r.unhook hook).hookOf h = r.hookOf h := by
  cases hook <;> cases h <;> rfl

theorem hookOf_of_same (hooks : q.hooks = r.hooks) (futures : q.futures = r.futures) (h : Holder) :
    q.hookOf h = r.hookOf h := by
  cases h with
  | conn c => rw [hookOf, hookOf, hooks]
  | future f => rw [hookOf, hookOf, futures]

end Registry

namespace Puts

/-- What is done to the tables, and then letting go of the hook that was there. -/
theorem of_unhook {h : Holder} {hook : Hook} (own : p.hookOf h = hook)
    (others : ∀ g, g ≠ h → p.hookOf g = r.hookOf g) (signals : p.signals = r.signals) :
    Puts r (p.unhook (r.hookOf h)) h hook := by
  refine ⟨?_, ?_, ?_⟩
  · rw [Registry.hookOf_unhook, own]
  · intro g hg
    rw [Registry.hookOf_unhook, others g hg]
  · intro j
    rw [Registry.signal_unhook_eq, Registry.signal_of_same signals]

/-- What else is done before touches neither signals nor hooks. -/
theorem after_same {h : Holder} {hook : Hook} (hputs : Puts p q h hook)
    (hooks : ∀ g, p.hookOf g = r.hookOf g) (signal : ∀ j, p.signal j = r.signal j) :
    Puts r q h hook := by
  refine ⟨hputs.own, fun g hg => (hputs.others g hg).trans (hooks g), ?_⟩
  intro j
  rw [hputs.signal, hooks, signal]

/-- Whoever holds nothing has nothing to let go. -/
theorem nothing {h : Holder} (hnone : r.hookOf h = none) : Puts r r h none := by
  refine ⟨hnone, fun _ _ => rfl, ?_⟩
  intro j
  rw [hnone]
  rfl

theorem storeHook (r : Registry Callback) (conn : Int) (hook : Hook) :
    Puts r (r.storeHook conn hook) (.conn conn) hook := by
  refine of_unhook (r := r) (h := .conn conn)
    (p := { r with hooks := r.hooks.put conn hook }) ?_ ?_ rfl
  · simp [Registry.hookOf]
  · rintro (c | f) hg
    · have hc : c ≠ conn := fun h => hg (congrArg _ h)
      simp [Registry.hookOf, Table.get?_put, hc]
    · rfl

theorem disconnect (r : Registry Callback) (conn : Int) :
    Puts r (r.disconnect conn) (.conn conn) none := by
  unfold Registry.disconnect
  cases hconn : r.hooks.get? conn with
  | none => exact .nothing (by simp [Registry.hookOf, hconn])
  | some hook =>
    have hput := storeHook r conn none
    rw [Registry.storeHook, hconn] at hput
    exact hput

theorem dropHook (r : Registry Callback) (conn : Int) :
    Puts r (r.dropHook conn) (.conn conn) none := by
  unfold Registry.dropHook
  cases hconn : r.hooks.get? conn with
  | none => exact .nothing (by simp [Registry.hookOf, hconn])
  | some hook =>
    have hhook : r.hookOf (.conn conn) = hook := by simp [Registry.hookOf, hconn]
    dsimp only
    rw [← hhook]
    refine of_unhook (p := { r with hooks := r.hooks.erase conn }) ?_ ?_ rfl
    · simp [Registry.hookOf]
    · rintro (c | f) hg
      · have hc : c ≠ conn := fun h => hg (congrArg _ h)
        simp [Registry.hookOf, Table.get?_erase, hc]
      · rfl

theorem storeFuture (r : Registry Callback) (f : Int) (kept : Future) :
    Puts r (r.storeFuture f kept) (.future f) kept.hook := by
  refine of_unhook (r := r) (h := .future f)
    (p := { r with futures := r.futures.put f kept }) ?_ ?_ rfl
  · simp [Registry.hookOf]
  · rintro (c | g) hg
    · rfl
    · have hf : g ≠ f := fun h => hg (congrArg _ h)
      simp [Registry.hookOf, Table.get?_put, hf]

theorem dropFuture (r : Registry Callback) (f : Int) :
    Puts r (r.dropFuture f) (.future f) none := by
  unfold Registry.dropFuture
  cases hf : r.futures.get? f with
  | none => exact .nothing (by simp [Registry.hookOf, hf])
  | some future =>
    have hhook : r.hookOf (.future f) = future.hook := by simp [Registry.hookOf, hf]
    dsimp only
    rw [← hhook]
    refine of_unhook (p := { r with futures := r.futures.erase f }) ?_ ?_ rfl
    · simp [Registry.hookOf]
    · rintro (c | g) hg
      · rfl
      · have hg' : g ≠ f := fun h => hg (congrArg _ h)
        simp [Registry.hookOf, Table.get?_erase, hg']

end Puts

/-- An operation that has a holder let go does so, and does nothing else to signals and hooks. -/
theorem puts_of_lettingGo {op : Op} {h : Holder} (hop : op.lettingGo? = some h) :
    Puts r (r.step op) h none := by
  cases op with
  | storeEmpty conn =>
    cases hop
    exact .storeHook r conn none
  | disconnect conn =>
    cases hop
    exact .disconnect r conn
  | dropConn conn =>
    cases hop
    exact .dropHook r conn
  | dropFuture f =>
    cases hop
    exact .dropFuture r f
  | _ => cases hop

/-! ### What an operation does -/

/-- What becomes of signals and hooks in an operation that makes this registration. -/
inductive Alters (r q : Registry Callback) : Option (Nat × Registration) → Prop
  | rests (signal : ∀ j, q.signal j = r.signal j) (hooks : ∀ g, q.hookOf g = r.hookOf g) :
      Alters r q none
  | releases {h} (puts : Puts r q h none) : Alters r q none
  /-- The listener is registered, and then the hook is stored. -/
  | registers {p : Registry Callback} {i n slots l h} (armed : r.signal i = .armed n slots)
      (signal : ∀ j,
        p.signal j = if j = i then .armed (n + 1) (slots ++ [(n, l)]) else r.signal j)
      (hooks : ∀ g, p.hookOf g = r.hookOf g) (puts : Puts p q h (some (i, n))) :
      Alters r q (some (i, ⟨n, l, h⟩))
  | fires {i} (signal : ∀ j, q.signal j = if j = i then .fired else r.signal j)
      (hooks : ∀ g, q.hookOf g = r.hookOf g) : Alters r q none

theorem alters_connect {i : Option Nat} (hi : ∀ k, i = some k → k < r.signals.length)
    (conn : Int) (k : Callback) :
    Alters r (r.connect i conn k).2 (r.enrolled? i (.callback k) (.conn conn)) := by
  cases i with
  | none => exact .releases (.storeHook r conn none)
  | some i =>
    simp only [Registry.connect, Registry.register, Registry.enrolled?, Option.bind_some]
    cases hs : r.signal i with
    | fired => exact .rests (fun _ => rfl) (fun _ => rfl)
    | armed n slots =>
      exact .registers hs (fun j => Registry.signal_setSignal r j _ (hi i rfl)) (fun _ => rfl)
        (.storeHook _ conn (some (i, n)))

theorem alters_createFuture {i : Option Nat} (hi : ∀ k, i = some k → k < r.signals.length)
    (f : Int) : Alters r (r.createFuture f i) (r.enrolled? i (.future r.channels) (.future f)) := by
  cases i with
  | none =>
    have hstored := Puts.storeFuture { r with channels := r.channels + 1 } f
      { hook := none, channel := r.channels }
    exact .releases (h := .future f) (hstored.after_same (fun _ => rfl) (fun _ => rfl))
  | some i =>
    have hsignal : Registry.signal { r with channels := r.channels + 1 } i = r.signal i := rfl
    simp only [Registry.createFuture, Registry.register, Registry.enrolled?, Option.bind_some,
      hsignal]
    cases hs : r.signal i with
    | fired =>
      have hstored := Puts.storeFuture
        (Registry.tell { r with channels := r.channels + 1 } r.channels) f
        { hook := none, channel := r.channels }
      exact .releases (h := .future f) (hstored.after_same (fun _ => rfl) (fun _ => rfl))
    | armed n slots =>
      refine .registers (p := Registry.setSignal { r with channels := r.channels + 1 } i
        (.armed (n + 1) (slots ++ [(n, .future r.channels)]))) hs ?_ (fun _ => rfl)
        (.storeFuture _ f { hook := some (i, n), channel := r.channels })
      intro j
      exact Registry.signal_setSignal { r with channels := r.channels + 1 } j _ (hi i rfl)

theorem alters_poll (f : Int) : Alters r (r.step (.poll f)) none := by
  simp only [Registry.step]
  split
  · exact .rests (fun _ => rfl) (fun _ => rfl)
  · next future hf =>
    have hhook : r.hookOf (.future f) = future.hook := by simp [Registry.hookOf, hf]
    unfold Registry.pollFuture
    split
    · exact .rests (fun _ => rfl) (fun _ => rfl)
    · split
      · have hput := Puts.storeFuture r f { future with hook := none, finished := true }
        rw [Registry.storeFuture, hf] at hput
        exact .releases hput
      · exact .rests (fun _ => rfl) (fun _ => rfl)

/-- **Every operation does this to signals and hooks.** -/
theorem alters (hr : r.IsMade) (op : Op) : Alters r (r.step op) (r.registered? op) := by
  cases op with
  | source s =>
    refine .rests (Registry.signal_create r s) ?_
    exact Registry.hookOf_of_same rfl rfl
  | dropSource s => exact .rests (fun _ => rfl) (fun _ => rfl)
  | token s t =>
    simp only [Registry.step, Registry.viaSource]
    split
    · exact .rests (fun _ => rfl) (fun _ => rfl)
    · exact .rests (fun _ => rfl) (fun _ => rfl)
  | defaultToken t => exact .rests (fun _ => rfl) (fun _ => rfl)
  | cloneToken t target =>
    simp only [Registry.step, Registry.viaToken]
    split
    · exact .rests (fun _ => rfl) (fun _ => rfl)
    · exact .rests (fun _ => rfl) (fun _ => rfl)
  | dropToken t => exact .rests (fun _ => rfl) (fun _ => rfl)
  | register s conn k =>
    simp only [Registry.step, Registry.viaSource, Registry.registered?]
    cases hs : r.sources.get? s with
    | none => exact .rests (fun _ => rfl) (fun _ => rfl)
    | some i =>
      refine alters_connect ?_ conn k
      rintro _ ⟨⟩
      exact hr.sources s i hs
  | registerToken t conn k =>
    simp only [Registry.step, Registry.viaToken, Registry.registered?]
    cases ht : r.tokens.get? t with
    | none => exact .rests (fun _ => rfl) (fun _ => rfl)
    | some i => exact alters_connect (hr.of_token ht) conn k
  | storeEmpty conn => exact .releases (puts_of_lettingGo rfl)
  | fire s =>
    simp only [Registry.step, Registry.viaSource, Registry.registered?]
    cases hs : r.sources.get? s with
    | none => exact .rests (fun _ => rfl) (fun _ => rfl)
    | some i =>
      refine .fires (i := i) ?_ (fun _ => rfl)
      intro j
      exact Registry.signal_setSignal r j .fired (hr.sources s i hs)
  | disconnect conn => exact .releases (puts_of_lettingGo rfl)
  | dropConn conn => exact .releases (puts_of_lettingGo rfl)
  | tell channel => exact .rests (fun _ => rfl) (fun _ => rfl)
  | stopped t f =>
    simp only [Registry.step, Registry.viaToken, Registry.registered?]
    cases ht : r.tokens.get? t with
    | none => exact .rests (fun _ => rfl) (fun _ => rfl)
    | some i => exact alters_createFuture (hr.of_token ht) f
  | poll f => exact alters_poll f
  | dropFuture f => exact .releases (puts_of_lettingGo rfl)

/-! ### What is stored and what is held -/

/-- Those of the registrations made on a signal whose holders still hold them. -/
def stillHeld (r : Registry Callback) (i : Nat) (made : List Registration) :
    List (Nat × Listener Callback) :=
  (made.filter fun e => r.hookOf e.holder = some (i, e.id)).map fun e => (e.id, e.listener)

/-- How a signal stands, by all registrations that were made on it. -/
structure Tally (r : Registry Callback) (i : Nat) (made : List Registration) : Prop where
  /-- The next number is the first that was not given out. -/
  numbered : ∃ n, made.map (·.id) = List.range n ∧
    ∀ k slots, r.signal i = .armed k slots → k = n
  own : ∀ h id, r.hookOf h = some (i, id) → ∃ l, ⟨id, l, h⟩ ∈ made
  stored : (r.signal i).isFired = false → (r.signal i).slots = stillHeld r i made

namespace Tally

variable {i : Nat} {made : List Registration}

theorem eq_of_id (ht : Tally r i made) {e f : Registration} (he : e ∈ made) (hf : f ∈ made)
    (hid : e.id = f.id) : e = f := by
  obtain ⟨n, hnumbered, -⟩ := ht.numbered
  have hnodup : (made.map (·.id)).Nodup := by
    rw [hnumbered]
    exact List.nodup_range
  exact List.inj_on_of_nodup_map hnodup he hf hid

theorem id_lt (ht : Tally r i made) {n : Nat} {slots : List (Nat × Listener Callback)}
    (harmed : r.signal i = .armed n slots) {e : Registration} (he : e ∈ made) : e.id < n := by
  obtain ⟨m, hnumbered, hnext⟩ := ht.numbered
  have hmem : e.id ∈ made.map (·.id) := List.mem_map_of_mem he
  rw [hnumbered, List.mem_range, ← hnext n slots harmed] at hmem
  exact hmem

/-- A holder that is given another hook gives up its own registration, and nobody else does. -/
theorem stillHeld_of_given (ht : Tally r i made) {h : Holder} {hook : Hook}
    (own : q.hookOf h = hook) (others : ∀ g, g ≠ h → q.hookOf g = r.hookOf g)
    (hnew : ∀ e ∈ made, hook ≠ some (i, e.id)) :
    stillHeld q i made = (stillHeld r i made).filter fun e => r.hookOf h ≠ some (i, e.1) := by
  unfold stillHeld
  rw [List.filter_map, List.filter_filter]
  congr 1
  refine List.filter_congr fun e he => ?_
  rw [← Bool.coe_iff_coe]
  simp only [Function.comp, Bool.and_eq_true, decide_eq_true_eq]
  by_cases hh : e.holder = h
  · rw [hh, own]
    refine ⟨fun heq => absurd heq (hnew e he), ?_⟩
    rintro ⟨hother, hown⟩
    exact absurd hown hother
  · rw [others _ hh]
    refine ⟨fun heq => ⟨?_, heq⟩, fun heq => heq.2⟩
    -- a registration has one holder
    intro hown
    obtain ⟨l, hmem⟩ := ht.own h e.id hown
    have hsame := ht.eq_of_id he hmem rfl
    exact hh (congrArg Registration.holder hsame)

theorem of_same (ht : Tally r i made) (signal : q.signal i = r.signal i)
    (hooks : ∀ g, q.hookOf g = r.hookOf g) : Tally q i made := by
  refine ⟨?_, ?_, ?_⟩
  · rw [signal]
    exact ht.numbered
  · intro h id hown
    rw [hooks] at hown
    exact ht.own h id hown
  · intro hunfired
    rw [signal] at hunfired ⊢
    rw [ht.stored hunfired]
    unfold stillHeld
    simp only [hooks]

/-- A holder is given a hook of another signal, or an empty one. -/
theorem puts (ht : Tally p i made) {h : Holder} {hook : Hook} (hputs : Puts p q h hook)
    (hother : ∀ id, hook ≠ some (i, id)) : Tally q i made := by
  obtain ⟨n, hnumbered, hnext⟩ := ht.numbered
  refine ⟨⟨n, hnumbered, ?_⟩, ?_, ?_⟩
  · intro k slots harmed
    rw [hputs.signal] at harmed
    obtain ⟨old, hold⟩ := armed_of_without harmed
    exact hnext k old hold
  · intro g id hown
    by_cases hg : g = h
    · rw [hg, hputs.own] at hown
      exact absurd hown (hother id)
    · rw [hputs.others g hg] at hown
      exact ht.own g id hown
  · intro hunfired
    rw [hputs.signal, isFired_without] at hunfired
    rw [hputs.signal, slots_without, ht.stored hunfired,
      ht.stillHeld_of_given hputs.own hputs.others fun e _ => hother e.id]

/-- A listener is registered, and its holder is given the hook. -/
theorem registers (ht : Tally r i made) {n : Nat} {slots : List (Nat × Listener Callback)}
    {l : Listener Callback} {h : Holder} (armed : r.signal i = .armed n slots)
    (signal : p.signal i = .armed (n + 1) (slots ++ [(n, l)]))
    (hooks : ∀ g, p.hookOf g = r.hookOf g) (hputs : Puts p q h (some (i, n))) :
    Tally q i (made ++ [⟨n, l, h⟩]) := by
  obtain ⟨m, hnumbered, hnext⟩ := ht.numbered
  obtain rfl := hnext n slots armed
  have hnew : p.hookOf h ≠ some (i, n) := by
    intro hown
    rw [hooks] at hown
    obtain ⟨k, hmem⟩ := ht.own h n hown
    exact absurd (ht.id_lt armed hmem) (Nat.lt_irrefl n)
  refine ⟨⟨n + 1, ?_, ?_⟩, ?_, ?_⟩
  · rw [List.map_append, hnumbered, List.range_succ]
    rfl
  · intro k left harmed
    rw [hputs.signal, signal] at harmed
    obtain ⟨old, hold⟩ := armed_of_without harmed
    cases hold
    rfl
  · intro g id hown
    by_cases hg : g = h
    · rw [hg, hputs.own] at hown
      cases hown
      exact ⟨l, by simp [hg]⟩
    · rw [hputs.others g hg, hooks] at hown
      obtain ⟨k, hmem⟩ := ht.own g id hown
      exact ⟨k, List.mem_append_left _ hmem⟩
  · intro _
    have hunfired : (r.signal i).isFired = false := by rw [armed]; rfl
    have hslots : slots = stillHeld r i made := by rw [← ht.stored hunfired, armed]; rfl
    have hothers : ∀ g, g ≠ h → q.hookOf g = r.hookOf g :=
      fun g hg => (hputs.others g hg).trans (hooks g)
    have hold := ht.stillHeld_of_given hputs.own hothers (by
      rintro e he ⟨⟩
      exact absurd (ht.id_lt armed he) (Nat.lt_irrefl _))
    have hsplit : stillHeld q i (made ++ [⟨n, l, h⟩]) = stillHeld q i made ++ [(n, l)] := by
      simp [stillHeld, hputs.own]
    rw [hputs.signal, slots_without, signal, hsplit, hold, ← hslots, ← hooks]
    simp [Signal.slots, hnew]

/-- Once a signal fired, none of its registrations is stored. -/
theorem fires (ht : Tally r i made) (signal : q.signal i = .fired)
    (hooks : ∀ g, q.hookOf g = r.hookOf g) : Tally q i made := by
  obtain ⟨n, hnumbered, -⟩ := ht.numbered
  refine ⟨⟨n, hnumbered, ?_⟩, ?_, ?_⟩
  · intro k slots harmed
    rw [signal] at harmed
    cases harmed
  · intro h id hown
    rw [hooks] at hown
    exact ht.own h id hown
  · intro hunfired
    rw [signal] at hunfired
    cases hunfired

theorem next {c : Option (Nat × Registration)} (ht : Tally r i made) (ha : Alters r q c) :
    Tally q i (made ++ (c.bind (on? i)).toList) := by
  cases ha with
  | rests signal hooks =>
    rw [Option.bind_none, Option.toList_none, List.append_nil]
    exact ht.of_same (signal i) hooks
  | releases hputs =>
    rw [Option.bind_none, Option.toList_none, List.append_nil]
    exact ht.puts hputs nofun
  | @registers p j n slots l h armed signal hooks hputs =>
    rw [Option.bind_some, on?]
    dsimp only
    by_cases hj : j = i
    · subst hj
      rw [if_pos rfl]
      have hsignal := signal j
      rw [if_pos rfl] at hsignal
      exact ht.registers armed hsignal hooks hputs
    · rw [if_neg hj, Option.toList_none, List.append_nil]
      have hsignal := signal i
      rw [if_neg (fun h => hj h.symm)] at hsignal
      refine (ht.of_same hsignal hooks).puts hputs ?_
      rintro id ⟨⟩
      exact hj rfl
  | @fires j signal hooks =>
    rw [Option.bind_none, Option.toList_none, List.append_nil]
    have hsignal := signal i
    by_cases hj : i = j
    · rw [if_pos hj] at hsignal
      exact ht.fires hsignal hooks
    · rw [if_neg hj] at hsignal
      exact ht.of_same hsignal hooks

end Tally

namespace Registry

theorem tally_of_run (ops : List Op) (i : Nat) :
    (after {} ops).IsMade ∧ Tally (after {} ops) i (registrationsOn {} i ops) := by
  refine foldl_induction step
    (P := fun ops r => r.IsMade ∧ Tally r i (registrationsOn {} i ops)) ?_ ?_ ops
  · refine ⟨isMade_start, ⟨0, rfl, ?_⟩, ?_, fun _ => rfl⟩
    · rintro k slots ⟨⟩
      rfl
    · rintro (c | f) id hown
      · cases hown
      · cases hown
  · intro ops op ⟨hr, ht⟩
    have hmade : registrationsOn {} i (ops ++ [op]) = registrationsOn {} i ops
        ++ (((after {} ops).registered? op).bind (on? i)).toList := seen_concat _ _ _ _ _
    rw [hmade]
    exact ⟨hr.step op, ht.next (alters hr op)⟩

end Registry

/-! ### Signals that are over -/

/-- The signal fired, or it was made and nobody holds it any more. -/
def IsOver (r : Registry Callback) (i : Nat) : Prop :=
  (r.signal i).isFired = true ∨ i < r.signals.length ∧ r.isHeld i = false

theorem Alters.isFired {c : Option (Nat × Registration)} (ha : Alters r q c) {i : Nat}
    (hfired : (r.signal i).isFired = true) : (q.signal i).isFired = true := by
  cases ha with
  | rests signal _ =>
    rw [signal]
    exact hfired
  | releases hputs =>
    rw [hputs.signal, isFired_without]
    exact hfired
  | @registers p j n slots l h armed signal _ hputs =>
    rw [hputs.signal, isFired_without, signal]
    by_cases hj : i = j
    · subst hj
      rw [armed] at hfired
      cases hfired
    · rw [if_neg hj]
      exact hfired
  | @fires j signal _ =>
    rw [signal]
    split
    · rfl
    · exact hfired

namespace IsOver

variable {i : Nat}

theorem step (h : IsOver r i) (hr : r.IsMade) (op : Op) : IsOver (r.step op) i := by
  rcases h with hfired | ⟨hmade, hunheld⟩
  · exact .inl ((alters hr op).isFired hfired)
  · have hlength := length_le_step r op
    refine .inr ⟨by omega, ?_⟩
    rw [← Bool.not_eq_true] at hunheld ⊢
    exact fun hheld => hunheld (isHeld_of_step op hmade hheld)

theorem after (h : IsOver r i) (hr : r.IsMade) (ops : List Op) : IsOver (r.after ops) i := by
  induction ops generalizing r with
  | nil => exact h
  | cons op ops ih => exact ih (h.step hr op) (hr.step op)

/-- No hook is connected to it. -/
theorem isConnected (h : IsOver r i) (id : Nat) : r.isConnected (some (i, id)) = false := by
  rcases h with hfired | ⟨-, hunheld⟩
  · simp [Registry.isConnected, hfired]
  · simp [Registry.isConnected, hunheld]

end IsOver

/-! ### Slots and hooks -/

theorem isFired_of_slots {s : Signal (Listener Callback)} {e : Nat × Listener Callback}
    (he : e ∈ s.slots) : s.isFired = false := by
  cases s with
  | armed n slots => rfl
  | fired => cases he

namespace Tally

variable {i : Nat} {made : List Registration}

end Tally

/-- A connection that is replaced lets go of its own listener; disconnecting it twice takes out
one. -/
example (j k l : Callback) : ((Registry.after {} [.source 0, .register 0 7 j, .register 0 8 k,
    .register 0 7 l, .disconnect 8, .disconnect 8]).signal 0).slots = [(2, .callback l)] := rfl

end Dialogue.Broadcast
