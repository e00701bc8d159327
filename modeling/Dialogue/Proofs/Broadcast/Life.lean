/-
The life of one signal.

Only three things are ever done to a signal: a listener is registered, a registration is removed,
and the signal is fired.  `Op` lists them, and whatever a registry does, with all its sources,
tokens, hooks and futures, comes to these on each of its signals, `Registry.signalsLive_after`.

A listener that is handed out is no longer kept, `listeners_step`.  Firing hands out those that are
registered, and a registration that comes too late hands back its own.  As with queues, a listener
may be lost but not copied, and it makes no difference what the listeners are, `relabel_step`.
-/
import Dialogue.Proofs.Broadcast.Hooks
import Mathlib.Data.List.Perm.Subperm

namespace Dialogue.Broadcast

namespace Signal

variable {κ κ' : Type}

/-- What can be done with a signal. -/
inductive Op (κ : Type)
  | register (k : κ)
  | disconnect (id : Nat)
  | fire

/-- The listener that an operation brings along. -/
def Op.listener? : Op κ → Option κ
  | register k => some k
  | _ => none

/-- Performs an operation. -/
def step (s : Signal κ) : Op κ → Signal κ
  | .register k => (s.register? k).elim s (·.2)
  | .disconnect id => s.disconnect id
  | .fire => .fired

/-- The listeners that are registered. -/
def listeners (s : Signal κ) : List κ :=
  s.slots.map (·.2)

/-- The listeners that are to run after an operation. -/
def handedOut (s : Signal κ) : Op κ → List κ
  | .register k => if s.isFired then [k] else []
  | .disconnect _ => []
  | .fire => s.listeners

/-- The signal after operations. -/
def after (s : Signal κ) (ops : List (Op κ)) : Signal κ :=
  ops.foldl step s

theorem after_append (s : Signal κ) (ops more : List (Op κ)) :
    s.after (ops ++ more) = (s.after ops).after more := by
  simp [after]

/-- Operations take one signal to the other. -/
def Becomes (s t : Signal κ) : Prop :=
  ∃ ops, t = s.after ops

namespace Becomes

variable {s t u : Signal κ}

theorem refl (s : Signal κ) : Becomes s s :=
  ⟨[], rfl⟩

theorem trans : Becomes s t → Becomes t u → Becomes s u := by
  rintro ⟨ops, rfl⟩ ⟨more, rfl⟩
  exact ⟨ops ++ more, (s.after_append ops more).symm⟩

theorem of_eq (h : t = s) : Becomes s t :=
  ⟨[], h⟩

theorem disconnect (s : Signal κ) (id : Nat) : Becomes s (s.disconnect id) :=
  ⟨[.disconnect id], rfl⟩

theorem fires (s : Signal κ) : Becomes s .fired :=
  ⟨[.fire], rfl⟩

theorem registers {k : κ} {id : Nat} (h : s.register? k = some (id, t)) : Becomes s t := by
  refine ⟨[.register k], ?_⟩
  show t = (s.register? k).elim s (·.2)
  rw [h]
  rfl

end Becomes

/-! ### What is handed out -/

/-- **No operation copies a listener.** -/
theorem listeners_step (s : Signal κ) (op : Op κ) :
    (s.handedOut op ++ (s.step op).listeners).Subperm (op.listener?.toList ++ s.listeners) := by
  cases op with
  | register k =>
    cases s with
    | armed n slots =>
      have hadded : ((armed n slots).step (.register k)).listeners
          = (armed n slots).listeners ++ [k] := List.map_append
      show List.Subperm ([] ++ _) _
      rw [List.nil_append, hadded]
      exact (List.perm_append_singleton _ _).subperm
    | fired => exact List.Subperm.refl _
  | disconnect id =>
    show List.Subperm (s.disconnect id).listeners s.listeners
    rw [listeners, slots_disconnect]
    exact (List.filter_sublist.map _).subperm
  | fire =>
    show List.Subperm (s.listeners ++ []) s.listeners
    rw [List.append_nil]

/-! ### Other listeners -/

section Relabel

variable (f : κ → κ')

/-- The signal, with other listeners. -/
def relabel : Signal κ → Signal κ'
  | armed n slots => armed n (slots.map (.map id f))
  | fired => fired

/-- The operation, with another listener. -/
def Op.relabel : Op κ → Op κ'
  | register k => .register (f k)
  | disconnect id => .disconnect id
  | fire => .fire

theorem Op.relabel_of_leftInverse {f : κ → κ'} {g : κ' → κ} (h : Function.LeftInverse g f)
    (op : Op κ) : (op.relabel f).relabel g = op := by
  cases op with
  | register k => exact congrArg register (h k)
  | _ => rfl

theorem Op.listener?_relabel (op : Op κ) : (op.relabel f).listener? = op.listener?.map f := by
  cases op <;> rfl

theorem listeners_relabel (s : Signal κ) : (s.relabel f).listeners = s.listeners.map f := by
  cases s with
  | armed n slots =>
    show (slots.map (Prod.map id f)).map Prod.snd = (slots.map Prod.snd).map f
    rw [List.map_map, List.map_map]
    rfl
  | fired => rfl

/-- **An operation does the same to other listeners.** -/
theorem relabel_step (s : Signal κ) (op : Op κ) :
    (s.step op).relabel f = (s.relabel f).step (op.relabel f) := by
  cases s with
  | fired => cases op <;> rfl
  | armed n slots =>
    cases op with
    | register k => simp [step, relabel, Op.relabel, register?]
    | disconnect id =>
      simp [step, relabel, Op.relabel, disconnect, List.filter_map, Function.comp_def]
    | fire => rfl

/-- The listeners that are to run are the other ones. -/
theorem handedOut_relabel (s : Signal κ) (op : Op κ) :
    (s.relabel f).handedOut (op.relabel f) = (s.handedOut op).map f := by
  cases op with
  | register k => cases s <;> rfl
  | disconnect id => rfl
  | fire => exact listeners_relabel f s

end Relabel

end Signal

/-! ### The signals of a registry -/

namespace Registry

theorem becomes_without (hook : Hook) (j : Nat) (s : Signal (Listener Callback)) :
    s.Becomes (without hook j s) := by
  unfold without
  split
  · exact .refl s
  · split
    · exact .disconnect s _
    · exact .refl s

/-- What an operation of a registry comes to on one of its signals. -/
theorem signal_step {r : Registry Callback} (hr : r.IsMade) (op : Broadcast.Op) (j : Nat) :
    (r.signal j).Becomes ((r.step op).signal j) := by
  have ha := alters hr op
  generalize r.step op = q at ha
  generalize r.registered? op = made at ha
  cases ha with
  | rests signal hooks => exact .of_eq (signal j)
  | releases puts =>
    rw [puts.signal j]
    exact becomes_without _ j _
  | @registers p i n slots l h armed signal hooks puts =>
    have henrolled : (r.signal j).Becomes (p.signal j) := by
      rw [signal j]
      split
      · next hj =>
        subst hj
        rw [armed]
        exact .registers rfl
      · exact .refl _
    rw [puts.signal j]
    exact henrolled.trans (becomes_without _ j _)
  | fires signal hooks =>
    rw [signal j]
    split
    · exact .fires _
    · exact .refl _

/-- The signals of a registry come from fresh ones by the operations of signals, and the registry
has those listeners run that its signals hand out. -/
structure SignalsLive (r : Registry Callback) : Prop where
  becomes : ∀ i, Signal.fresh.Becomes (r.signal i)
  fire : ∀ i, (r.fire i).1 = (r.signal i).handedOut .fire
  register : ∀ i l, (r.register (some i) l).1 = .runNow ↔
    (r.signal i).handedOut (.register l) = [l]

/-- **Whatever a registry does comes to these operations on its signals.** -/
theorem signalsLive_after (ops : List Broadcast.Op) :
    SignalsLive (({} : Registry Callback).after ops) := by
  refine ⟨?_, fun _ => rfl, ?_⟩
  · intro i
    induction ops using List.reverseRecOn with
    | nil => exact .refl _
    | append_singleton ops op ih =>
      rw [after_append]
      exact ih.trans (signal_step (tally_of_run ops i).1 op i)
  · intro i l
    cases hs : (({} : Registry Callback).after ops).signal i <;>
      simp [Registry.register, hs, Signal.register?, Signal.handedOut, Signal.isFired]

end Registry

end Dialogue.Broadcast
