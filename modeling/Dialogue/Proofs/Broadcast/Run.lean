/-
Every way a registry can be used.

`Op` lists what a program can do with signals and with everything that refers to them.  What a
callback does when it runs is again such operations, inside a firing as well as outside, and a panic
leaves out some that were still to come.  So a run is a list of operations, whoever asks for them,
and every step of a script is a run, with all callbacks that run in it and however it ends.

A registration that comes too late is two operations: none at first, and once its callback ran, the
storing of an empty hook.
-/
import Dialogue.Proofs.Broadcast.Agenda
import Dialogue.Proofs.Script
import Dialogue.Proofs.Table

namespace Dialogue.Broadcast

/-- What can be done with signals. -/
inductive Op
  | source (s : Int)
  | dropSource (s : Int)
  | token (s t : Int)
  | defaultToken (t : Int)
  | cloneToken (t target : Int)
  | dropToken (t : Int)
  | register (s conn : Int) (k : Callback)
  | registerToken (t conn : Int) (k : Callback)
  /-- Stores an empty hook, in place of any other. -/
  | storeEmpty (conn : Int)
  | fire (s : Int)
  | disconnect (conn : Int)
  | dropConn (conn : Int)
  /-- Tells the future behind a channel. -/
  | tell (channel : Nat)
  | stopped (t f : Int)
  | poll (f : Int)
  | dropFuture (f : Int)

namespace Registry

variable (r : Registry Callback)

/-- Does something with the signal of a source, if there is one. -/
def viaSource (s : Int) (f : Nat → Registry Callback) : Registry Callback :=
  match r.sources.get? s with
  | none => r
  | some i => f i

/-- Does something with the signal of a token, if there is such a token. -/
def viaToken (t : Int) (f : Option Nat → Registry Callback) : Registry Callback :=
  match r.tokens.get? t with
  | none => r
  | some i => f i

/-- Performs an operation.  What it answers is left out here. -/
def step : Op → Registry Callback
  | .source s => r.create s
  | .dropSource s => { r with sources := r.sources.erase s }
  | .token s t => r.viaSource s fun i => { r with tokens := r.tokens.put t (some i) }
  | .defaultToken t => { r with tokens := r.tokens.put t none }
  | .cloneToken t target => r.viaToken t fun i => { r with tokens := r.tokens.put target i }
  | .dropToken t => { r with tokens := r.tokens.erase t }
  | .register s conn k => r.viaSource s fun i => (r.connect (some i) conn k).2
  | .registerToken t conn k => r.viaToken t fun i => (r.connect i conn k).2
  | .storeEmpty conn => r.storeHook conn none
  | .fire s => r.viaSource s fun i => (r.fire i).2
  | .disconnect conn => r.disconnect conn
  | .dropConn conn => r.dropHook conn
  | .tell channel => r.tell channel
  | .stopped t f => r.viaToken t fun i => r.createFuture f i
  | .poll f =>
    match r.futures.get? f with
    | none => r
    | some future => (r.pollFuture f future).2
  | .dropFuture f => r.dropFuture f

/-- The registry after operations. -/
def after (ops : List Op) : Registry Callback :=
  ops.foldl step r

theorem after_append (ops more : List Op) : r.after (ops ++ more) = (r.after ops).after more := by
  simp [after]

end Registry

/-! ### Sources and tokens -/

/-- Sources and tokens stay, and no signal is made. -/
structure KeepsHandles (r q : Registry Callback) : Prop where
  length : q.signals.length = r.signals.length
  sources : q.sources = r.sources
  tokens : q.tokens = r.tokens

namespace KeepsHandles

variable {r p q : Registry Callback}

theorem refl (r : Registry Callback) : KeepsHandles r r :=
  ⟨rfl, rfl, rfl⟩

theorem trans (h : KeepsHandles r p) (k : KeepsHandles p q) : KeepsHandles r q :=
  ⟨k.length.trans h.length, k.sources.trans h.sources, k.tokens.trans h.tokens⟩

theorem setSignal (r : Registry Callback) (i : Nat) (s : Signal (Listener Callback)) :
    KeepsHandles r (r.setSignal i s) :=
  ⟨List.length_set, rfl, rfl⟩

theorem unhook (h : KeepsHandles r p) (hook : Hook) : KeepsHandles r (p.unhook hook) := by
  cases hook with
  | none => exact h
  | some own => exact h.trans (setSignal p _ _)

/-- Hooks and futures change, and then a hook lets go. -/
theorem letGo (r : Registry Callback) (hooks : Table Hook) (futures : Table Future) (hook : Hook) :
    KeepsHandles r (Registry.unhook { r with hooks, futures } hook) := by
  have hsame : KeepsHandles r { r with hooks, futures } := ⟨rfl, rfl, rfl⟩
  exact hsame.unhook hook

theorem register (r : Registry Callback) (i : Option Nat) (l : Listener Callback) :
    KeepsHandles r (r.register i l).2 := by
  unfold Registry.register
  split
  · exact refl r
  · split
    · exact setSignal r _ _
    · exact refl r

theorem storeHook (r : Registry Callback) (conn : Int) (hook : Hook) :
    KeepsHandles r (r.storeHook conn hook) :=
  letGo r _ _ _

theorem connect (r : Registry Callback) (i : Option Nat) (conn : Int) (k : Callback) :
    KeepsHandles r (r.connect i conn k).2 := by
  have hregister := register r i (.callback k)
  unfold Registry.connect
  generalize r.register i (.callback k) = result at hregister
  obtain ⟨registered, q⟩ := result
  cases registered with
  | runNow => exact hregister
  | hooked hook => exact hregister.trans (storeHook q conn hook)
  | dropped => exact hregister.trans (storeHook q conn none)

theorem createFuture (r : Registry Callback) (f : Int) (i : Option Nat) :
    KeepsHandles r (r.createFuture f i) := by
  have hregister := register { r with channels := r.channels + 1 } i (.future r.channels)
  unfold Registry.createFuture
  dsimp only
  generalize Registry.register { r with channels := r.channels + 1 } i (.future r.channels) = result
    at hregister
  obtain ⟨registered, q⟩ := result
  have hkept : KeepsHandles r q := ⟨hregister.length, hregister.sources, hregister.tokens⟩
  refine unhook ?_ _
  cases registered with
  | runNow => exact hkept.trans ⟨rfl, rfl, rfl⟩
  | hooked hook => exact hkept.trans ⟨rfl, rfl, rfl⟩
  | dropped => exact hkept.trans ⟨rfl, rfl, rfl⟩

end KeepsHandles

/-- The operation stores or drops a source or a token. -/
def Op.movesHandle : Op → Bool
  | .source _ | .dropSource _ | .token _ _ | .defaultToken _ | .cloneToken _ _ | .dropToken _ =>
    true
  | _ => false

variable {r : Registry Callback}

theorem keepsHandles {op : Op} (hop : op.movesHandle = false) : KeepsHandles r (r.step op) := by
  cases op with
  | register s conn k =>
    simp only [Registry.step, Registry.viaSource]
    split
    · exact .refl r
    · exact .connect r _ conn k
  | registerToken t conn k =>
    simp only [Registry.step, Registry.viaToken]
    split
    · exact .refl r
    · exact .connect r _ conn k
  | storeEmpty conn => exact .storeHook r conn none
  | fire s =>
    simp only [Registry.step, Registry.viaSource]
    split
    · exact .refl r
    · exact .setSignal r _ _
  | disconnect conn =>
    simp only [Registry.step, Registry.disconnect]
    split
    · exact .refl r
    · exact .letGo r _ _ _
  | dropConn conn =>
    simp only [Registry.step, Registry.dropHook]
    split
    · exact .refl r
    · exact .letGo r _ _ _
  | tell channel => exact ⟨rfl, rfl, rfl⟩
  | stopped t f =>
    simp only [Registry.step, Registry.viaToken]
    split
    · exact .refl r
    · exact .createFuture r f _
  | poll f =>
    simp only [Registry.step]
    split
    · exact .refl r
    · unfold Registry.pollFuture
      split
      · exact .refl r
      · split
        · exact .letGo r _ _ _
        · exact .refl r
  | dropFuture f =>
    simp only [Registry.step, Registry.dropFuture]
    split
    · exact .refl r
    · exact .letGo r _ _ _
  | _ => cases hop

theorem Registry.IsMade.step (h : r.IsMade) (op : Op) : (r.step op).IsMade := by
  cases hop : op.movesHandle with
  | false =>
    obtain ⟨hlength, hsources, htokens⟩ := keepsHandles (r := r) hop
    exact h.of_same hlength hsources htokens
  | true =>
    cases op with
    | source s => exact h.create s
    | dropSource s => exact h.eraseSource s
    | token s t =>
      simp only [Registry.step, viaSource]
      split
      · exact h
      · next i hs =>
        refine h.putToken t ?_
        rintro _ ⟨⟩
        exact h.sources s i hs
    | defaultToken t => exact h.putToken t nofun
    | cloneToken t target =>
      simp only [Registry.step, viaToken]
      split
      · exact h
      · next i ht => exact h.putToken target (h.of_token ht)
    | dropToken t => exact h.eraseToken t
    | _ => cases hop

/-- A signal that nobody holds, of those that were made, is never held again. -/
theorem isHeld_of_step (op : Op) {i : Nat} (hi : i < r.signals.length)
    (hheld : (r.step op).isHeld i = true) : r.isHeld i = true := by
  have hiff : ∀ q : Registry Callback,
      q.isHeld i = true ↔ i ∈ q.sources.values ∨ some i ∈ q.tokens.values := by
    intro q
    simp [Registry.isHeld]
  rw [hiff] at hheld ⊢
  cases hop : op.movesHandle with
  | false =>
    obtain ⟨-, hsources, htokens⟩ := keepsHandles (r := r) hop
    rwa [hsources, htokens] at hheld
  | true =>
    cases op with
    | source s =>
      refine hheld.imp_left fun hmem => ?_
      rcases Table.mem_values_of_put hmem with rfl | hold
      · exact absurd hi (Nat.lt_irrefl _)
      · exact hold
    | dropSource s => exact hheld.imp_left Table.mem_values_of_erase
    | token s t =>
      simp only [Registry.step, Registry.viaSource] at hheld
      split at hheld
      · exact hheld
      · next k hs =>
        rcases hheld with hsource | htoken
        · exact .inl hsource
        · rcases Table.mem_values_of_put htoken with heq | hold
          · cases heq
            exact .inl (Table.mem_values_of_get? hs)
          · exact .inr hold
    | defaultToken t =>
      refine hheld.imp_right fun hmem => ?_
      rcases Table.mem_values_of_put hmem with heq | hold
      · cases heq
      · exact hold
    | cloneToken t target =>
      simp only [Registry.step, Registry.viaToken] at hheld
      split at hheld
      · exact hheld
      · next k ht =>
        refine hheld.imp_right fun hmem => ?_
        rcases Table.mem_values_of_put hmem with rfl | hold
        · exact Table.mem_values_of_get? ht
        · exact hold
    | dropToken t => exact hheld.imp_right Table.mem_values_of_erase
    | _ => cases hop

theorem length_le_step (r : Registry Callback) (op : Op) :
    r.signals.length ≤ (r.step op).signals.length := by
  cases hop : op.movesHandle with
  | false =>
    obtain ⟨hlength, -, -⟩ := keepsHandles (r := r) hop
    exact Nat.le_of_eq hlength.symm
  | true =>
    cases op with
    | source s => simp [Registry.step, Registry.create]
    | token s t =>
      simp only [Registry.step, Registry.viaSource]
      split
      · exact Nat.le_refl _
      · exact Nat.le_refl _
    | cloneToken t target =>
      simp only [Registry.step, Registry.viaToken]
      split
      · exact Nat.le_refl _
      · exact Nat.le_refl _
    | dropSource s => exact Nat.le_refl _
    | defaultToken t => exact Nat.le_refl _
    | dropToken t => exact Nat.le_refl _
    | _ => cases hop

/-! ### Every step of a script is a run -/

open Dialogue.Play (Leads leads_pure leads_throw leads_emit leads_bind leads_look leads_answer
  leads_aside leads_inside leads_arranged leads_forM)

/-- Operations take one registry to the other. -/
def Reaches (r q : Registry Callback) : Prop :=
  ∃ ops, q = r.after ops

instance : IsPreorder (Registry Callback) Reaches where
  refl r := ⟨[], rfl⟩
  trans r q p := by
    rintro ⟨ops, rfl⟩ ⟨more, rfl⟩
    exact ⟨ops ++ more, (r.after_append ops more).symm⟩

variable {s : Scene (Registry Callback) Event} {order : Order}
  {inner : List Step → Play (List (Report Answer Event))}

theorem reaches_step {r q : Registry Callback} (op : Op) (h : q = r.step op) : Reaches r q :=
  ⟨[op], h⟩

/-- A step that does one operation. -/
theorem leads_change {f : Registry Callback → Registry Callback} (op : Op)
    (h : f s.state = s.state.step op) :
    Leads Reaches (do Play.change f; return .done : Play Answer) s :=
  leads_answer (fun _ => Answer.done) (reaches_step op h)

theorem leads_withSource {n : Int} {f : Nat → Play Answer}
    (hf : ∀ i, s.state.sources.get? n = some i → Leads Reaches (f i) s) :
    Leads Reaches (withSource n f) s := by
  refine leads_look ?_
  split
  · exact leads_pure _
  · next i hi => exact hf i hi

theorem leads_withToken {n : Int} {f : Option Nat → Play Answer}
    (hf : ∀ i, s.state.tokens.get? n = some i → Leads Reaches (f i) s) :
    Leads Reaches (withToken n f) s := by
  refine leads_look ?_
  split
  · exact leads_pure _
  · next i hi => exact hf i hi

theorem leads_withHook {conn : Int} {m : Play Answer} (hm : Leads Reaches m s) :
    Leads Reaches (withHook conn m) s := by
  refine leads_look ?_
  split
  · exact leads_pure _
  · exact hm

theorem leads_withFuture {n : Int} {m : Future → Play Answer}
    (hm : ∀ future, s.state.futures.get? n = some future → Leads Reaches (m future) s) :
    Leads Reaches (withFuture n m) s := by
  refine leads_look ?_
  split
  · exact leads_pure _
  · next future hfuture => exact hm future hfuture

theorem leads_run (hinner : ∀ body s, Leads Reaches (inner body) s) (k : Callback)
    (s : Scene (Registry Callback) Event) : Leads Reaches (run inner k) s :=
  leads_bind (leads_aside (hinner k.body)) fun _ _ _ => leads_emit _

theorem leads_notify (hinner : ∀ body s, Leads Reaches (inner body) s) (l : Listener Callback)
    (s : Scene (Registry Callback) Event) : Leads Reaches (notify inner l) s := by
  cases l with
  | callback k => exact leads_run hinner k s
  | future channel => exact reaches_step (.tell channel) rfl

/-- A callback that comes too late runs, and then its empty hook is stored. -/
theorem leads_registerCallback (hinner : ∀ body s, Leads Reaches (inner body) s) {i : Option Nat}
    {conn : Int} {k : Callback} (op : Op)
    (h : (s.state.connect i conn k).2 = s.state.step op) :
    Leads Reaches (registerCallback inner i conn k) s := by
  refine leads_bind (reaches_step op h) ?_
  intro now s' _
  cases now with
  | false => exact leads_answer _ (refl_of Reaches s'.state)
  | true =>
    refine leads_bind (leads_run hinner k s') fun _ s'' _ => ?_
    refine leads_bind (reaches_step (.storeEmpty conn) rfl) fun _ s'' _ => ?_
    exact leads_answer _ (refl_of Reaches s''.state)

theorem leads_perform (hinner : ∀ body s, Leads Reaches (inner body) s) (step : Step)
    (s : Scene (Registry Callback) Event) : Leads Reaches (perform order inner step) s := by
  cases step with
  | source n => exact leads_change (.source n) rfl
  | dropSource n => exact leads_withSource fun i _ => leads_change (.dropSource n) rfl
  | token n t =>
    refine leads_withSource fun i hi => leads_change (.token n t) ?_
    simp only [Registry.step, Registry.viaSource, hi]
  | defaultToken t => exact leads_change (.defaultToken t) rfl
  | cloneToken t target =>
    refine leads_withToken fun i hi => leads_change (.cloneToken t target) ?_
    simp only [Registry.step, Registry.viaToken, hi]
  | dropToken t => exact leads_withToken fun i _ => leads_change (.dropToken t) rfl
  | register n conn name body =>
    refine leads_withSource fun i hi =>
      leads_registerCallback hinner (.register n conn ⟨name, body⟩) ?_
    simp only [Registry.step, Registry.viaSource, hi]
  | registerToken t conn name body =>
    refine leads_withToken fun i hi =>
      leads_registerCallback hinner (.registerToken t conn ⟨name, body⟩) ?_
    simp only [Registry.step, Registry.viaToken, hi]
  | fire n =>
    refine leads_withSource fun i hi => leads_arranged (leads_bind (reaches_step (.fire n) ?_) ?_)
    · simp only [Registry.step, Registry.viaSource, hi]
      rfl
    · intro listeners s' _
      exact leads_answer _ (leads_forM (leads_notify hinner) _)
  | disconnect conn => exact leads_withHook (leads_change (.disconnect conn) rfl)
  | dropConn conn => exact leads_withHook (leads_change (.dropConn conn) rfl)
  | stopped t f =>
    refine leads_withToken fun i hi => leads_change (.stopped t f) ?_
    simp only [Registry.step, Registry.viaToken, hi]
  | poll f =>
    refine leads_withFuture fun future hf => leads_answer _ (reaches_step (.poll f) ?_)
    simp only [Registry.step, hf]
    rfl
  | dropFuture f => exact leads_withFuture fun _ _ => leads_change (.dropFuture f) rfl
  | panic message => exact leads_throw _
  | unknown => exact leads_pure _

theorem leads_runBody (order : Order) (fuel : Nat) (body : List Step)
    (s : Scene (Registry Callback) Event) : Leads Reaches (runBody order fuel body) s := by
  induction fuel generalizing body s with
  | zero => exact leads_throw _
  | succ fuel ih => exact leads_inside (leads_perform ih) body

end Dialogue.Broadcast
