/-
Callbacks in their one-shots.

A queue and a signal are given a callback inside a one-shot, and hand the one-shot over to whoever
is to call it.  As a value a callback can be run as often as one likes, but a one-shot can be called
once, and the second caller finds it empty.  So whoever is handed one finds a callable in it only if
nobody else has it too.

A depot is one exchange of queues and some signals, with the one-shots of their callbacks.  What is
handed out is *taken* until it is called or dropped, and in between anything may happen: the
callbacks called first do what they like with all queues and signals, and a panic drops what its
caller had taken.  So a run is a list of moves in any order.

The induction is on the run.  What carries it is that the one-shots that wait, are registered or
were taken are all different, which no operation breaks because none copies a callback.  A call
empties the one-shot that is called, hence none that is still to be called.
-/
import Dialogue.OneShot.Script
import Dialogue.Proofs.Broadcast.Life
import Dialogue.Proofs.Handoff.Handlers
import Dialogue.Proofs.Handoff.Relabel
import Dialogue.Proofs.OneShot.Calls

namespace Dialogue

open Broadcast (Signal)
open Handoff (Exchange)

/-- Whoever calls a callback that was handed out. -/
inductive Caller
  /-- The job that serves a wait. -/
  | job
  /-- The firing of a signal. -/
  | firing
  /-- A registration that comes after the firing. -/
  | registration

/-- A callback in a one-shot: the number of the one-shot, and the callback. -/
structure Held (κ : Type) where
  cell : Nat
  body : κ

/-- The callable made for a callback. -/
def Held.callable {κ : Type} (recipe : κ → OneShot.Recipe) (h : Held κ) : Callable :=
  ⟨recipe h.body, h.cell⟩

/-- Queues and signals whose callbacks are in one-shots. -/
structure Depot (α κ ω : Type) where
  exchange : Exchange α (Held κ) ω := {}
  signals : List (Signal (Held κ)) := []
  /-- All one-shots that were made, by their numbers; to one that is dropped nothing refers. -/
  cells : List OneShot := []
  /-- What was handed out and has not been called, with whoever is to call it. -/
  taken : List (Caller × Held κ) := []
  /-- The callers that found nothing to call. -/
  refused : List Caller := []

/-! ### Calls that are not refused -/

/-- A one-shot that is kept outside the slots can be called exactly if it holds something. -/
theorem Rack.begin?_keep_eq_none_iff {n : Nat} {r : Rack n} {k : OneShot} :
    (r.keep k).begin? .loose = none ↔ k.payload? = none :=
  Option.map_eq_none_iff

/-- Whoever takes the one-shot and calls it is not refused, wherever that is and whatever runs in
the call. -/
def OneShot.IsAnswered (k : OneShot) : Prop :=
  ∀ {n : Nat} (inner : List (Step n) → Play n (List (Report Answer Event))) (r : Rack n)
    (bodies : Table (List (Step n))) (events : List Event) (arg : Int64),
    ((call inner .loose arg).start ⟨⟨r.keep k, bodies⟩, events⟩).1 ≠ .ok
      (.error .noContinuation)

theorem OneShot.isAnswered_of_payload? {k : OneShot} {c : Callable} (hk : k.payload? = some c) :
    k.IsAnswered := by
  intro n inner r bodies events arg hrefused
  have hfound : (r.keep k).begin? .loose ≠ none := by
    rw [Ne, Rack.begin?_keep_eq_none_iff, hk]
    nofun
  obtain ⟨⟨c, rack⟩, hbegun⟩ := Option.ne_none_iff_exists'.mp hfound
  rw [start_call_of_some (w := ⟨r.keep k, bodies⟩) hbegun] at hrefused
  obtain ⟨v, s, -, hv⟩ := Dialogue.Play.exists_of_bind hrefused
  cases hv

namespace Depot

variable {α κ ω : Type}

/-- What can happen next. -/
inductive Move (α κ ω : Type)
  | queue (op : Handoff.Op α κ ω)
  | signal (i : Nat) (op : Signal.Op κ)
  /-- One of the callbacks that were taken is called. -/
  | call (n : Nat)
  /-- One of them is dropped. -/
  | drop (n : Nat)

/-- The one-shot of a callback. -/
def content (d : Depot α κ ω) (h : Held κ) : OneShot :=
  d.cells[h.cell]?.getD .empty

/-- A callback in the one-shot that is made next. -/
def next (d : Depot α κ ω) (k : κ) : Held κ :=
  ⟨d.cells.length, k⟩

/-- The one-shots once one was made for a callback, if there is one. -/
def shelve (d : Depot α κ ω) (recipe : κ → OneShot.Recipe) (k : Option κ) : List OneShot :=
  d.cells ++ (k.map fun k => .ofCallable ((d.next k).callable recipe)).toList

/-- Calls a callback: its one-shot is called, and it is as the call leaves it. -/
def invoke (d : Depot α κ ω) (caller : Caller) (h : Held κ) : Depot α κ ω :=
  match (({} : Rack 0).keep (d.content h)).begin? .loose with
  | none => { d with refused := d.refused ++ [caller] }
  | some (_, rack) => { d with cells := d.cells.set h.cell (rack.content .loose) }

/-- Whoever calls what an operation on a signal hands out. -/
def callerOf : Signal.Op κ → Caller
  | .register _ => .registration
  | .disconnect _ | .fire => .firing

/-- Makes a move.  A callback that is given away is put into a one-shot of its own, with a callable
after its recipe. -/
def step (recipe : κ → OneShot.Recipe) (d : Depot α κ ω) : Move α κ ω → Depot α κ ω
  | .queue op => { d with
      exchange := d.exchange.step (op.relabel d.next)
      cells := d.shelve recipe op.handler?
      taken := d.taken ++
        ((d.exchange.invoked? (op.relabel d.next)).map fun r => (.job, r.1)).toList }
  | .signal i op =>
    match d.signals[i]? with
    | none => d
    | some s => { d with
        signals := d.signals.set i (s.step (op.relabel d.next))
        cells := d.shelve recipe op.listener?
        taken := d.taken ++ (s.handedOut (op.relabel d.next)).map (callerOf op, ·) }
  | .call n =>
    match d.taken[n]? with
    | none => d
    | some (caller, h) => { d with taken := d.taken.eraseIdx n }.invoke caller h
  | .drop n => { d with taken := d.taken.eraseIdx n }

/-- A depot of some signals after moves.  A signal made later is one to which nothing was done
before. -/
def after (recipe : κ → OneShot.Recipe) (n : Nat) (ms : List (Move α κ ω)) : Depot α κ ω :=
  ms.foldl (step recipe) { signals := .replicate n .fresh }

theorem after_concat (recipe : κ → OneShot.Recipe) (n : Nat) (ms : List (Move α κ ω))
    (m : Move α κ ω) : after recipe n (ms ++ [m]) = (after recipe n ms).step recipe m := by
  simp [after]

/-! ### Where the one-shots are -/

/-- What was taken, is registered or waits. -/
def kept (d : Depot α κ ω) : List (Held κ) :=
  d.taken.map (·.2) ++ (d.signals.flatMap (·.listeners) ++ d.exchange.handlers)

/-- The listeners of the signal that is replaced are exchanged for those of the other. -/
theorem listeners_set {signals : List (Signal (Held κ))} {i : Nat} {s : Signal (Held κ)}
    (h : signals[i]? = some s) (t : Signal (Held κ)) :
    (s.listeners ++ (signals.set i t).flatMap (·.listeners)).Perm
      (t.listeners ++ signals.flatMap (·.listeners)) := by
  have hset := (List.getD_set_perm_cons signals i t).flatMap_right (·.listeners)
  rw [h] at hset
  exact hset

theorem kept_queue (recipe : κ → OneShot.Recipe) (d : Depot α κ ω)
    (op : Handoff.Op α κ ω) :
    (d.step recipe (.queue op)).kept.Subperm ((op.handler?.map d.next).toList ++ d.kept) := by
  classical
  have hlaw := Exchange.handlers_step d.exchange (op.relabel d.next)
  have htaken : (((d.exchange.invoked? (op.relabel d.next)).map fun r =>
      (Caller.job, r.1)).toList.map (·.2)) =
      ((d.exchange.invoked? (op.relabel d.next)).map (·.1)).toList := by
    cases d.exchange.invoked? (op.relabel d.next) <;> rfl
  rw [Handoff.Op.handler?_relabel, List.subperm_iff_count] at hlaw
  rw [kept, kept, step, List.map_append, htaken, List.subperm_iff_count]
  -- what is handed out changes its place among what is kept, so each callback is counted
  intro h
  have hcount := hlaw h
  simp only [List.count_append] at hcount ⊢
  omega

theorem kept_signal (recipe : κ → OneShot.Recipe) {d : Depot α κ ω} {i : Nat}
    {s : Signal (Held κ)} (hs : d.signals[i]? = some s) (op : Signal.Op κ) :
    (d.step recipe (.signal i op)).kept.Subperm ((op.listener?.map d.next).toList ++ d.kept) := by
  classical
  have hlaw := s.listeners_step (op.relabel d.next)
  have hset := listeners_set hs (s.step (op.relabel d.next))
  have htaken : ((s.handedOut (op.relabel d.next)).map (callerOf op, ·)).map (·.2) =
      s.handedOut (op.relabel d.next) := by
    rw [List.map_map]
    exact List.map_id _
  rw [Signal.Op.listener?_relabel, List.subperm_iff_count] at hlaw
  rw [List.perm_iff_count] at hset
  simp only [step, hs]
  rw [kept, kept, List.map_append, htaken, List.subperm_iff_count]
  intro h
  have hcount := hlaw h
  have hexchanged := hset h
  simp only [List.count_append] at hcount hexchanged ⊢
  omega

/-- What is taken out of the line of calls is kept no longer. -/
theorem kept_of_taken {d : Depot α κ ω} {n : Nat} {c : Caller × Held κ}
    (h : d.taken[n]? = some c) :
    (c.2 :: kept { d with taken := d.taken.eraseIdx n }).Perm d.kept := by
  obtain ⟨hn, rfl⟩ := List.getElem?_eq_some_iff.mp h
  exact ((List.getElem_cons_eraseIdx_perm hn).map (·.2)).append_right _

/-! ### Everyone finds a callable -/

/-- Whatever can be called has a one-shot of its own that holds its callable, and so far every
caller has found one. -/
structure IsStocked (recipe : κ → OneShot.Recipe) (d : Depot α κ ω) : Prop where
  holds : ∀ h ∈ d.kept, (d.content h).payload? = some (h.callable recipe)
  own : (d.kept.map (·.cell)).Nodup
  refused : d.refused = []

theorem lt_length_of_content {d : Depot α κ ω} {h : Held κ} {c : Callable}
    (hholds : (d.content h).payload? = some c) : h.cell < d.cells.length := by
  by_contra hlt
  rw [content, List.getElem?_eq_none (by omega)] at hholds
  cases hholds

theorem nodup_cells {l m : List (Held κ)} (h : l.Subperm m) (hm : (m.map (·.cell)).Nodup) :
    (l.map (·.cell)).Nodup := by
  obtain ⟨p, hperm, hsub⟩ := h
  exact ((hsub.map _).nodup hm).perm (hperm.map _)

namespace IsStocked

variable {recipe : κ → OneShot.Recipe} {d e : Depot α κ ω}

theorem start (n : Nat) :
    IsStocked recipe ({ signals := .replicate n .fresh } : Depot α κ ω) := by
  have hnone : kept ({ signals := .replicate n .fresh } : Depot α κ ω) = [] := by
    have hsignals : (List.replicate n (Signal.fresh : Signal (Held κ))).flatMap (·.listeners)
        = [] := by
      rw [List.flatMap_replicate]
      simp [Signal.listeners, Signal.fresh, Signal.slots]
    rw [kept, hsignals]
    rfl
  refine ⟨?_, ?_, rfl⟩
  · intro h hh
    rw [hnone] at hh
    cases hh
  · rw [hnone]
    exact List.nodup_nil

/-- A one-shot is made for a callback that is given away, and nothing is copied. -/
theorem shelves (h : d.IsStocked recipe) {k : Option κ}
    (hkept : e.kept.Subperm ((k.map d.next).toList ++ d.kept))
    (hcells : e.cells = d.shelve recipe k) (hrefused : e.refused = d.refused) :
    e.IsStocked recipe := by
  have hold : ∀ g ∈ d.kept, e.content g = d.content g := by
    intro g hg
    rw [content, content, hcells, shelve,
      List.getElem?_append_left (lt_length_of_content (h.holds g hg))]
  have hnew : ∀ g ∈ (k.map d.next).toList,
      g.cell = d.cells.length ∧ (e.content g).payload? = some (g.callable recipe) := by
    intro g hg
    obtain ⟨k, rfl, rfl⟩ := Option.map_eq_some_iff.mp (Option.mem_toList.mp hg)
    refine ⟨rfl, ?_⟩
    rw [content, hcells, shelve]
    simp [next]
  have hfresh : (((k.map d.next).toList ++ d.kept).map (·.cell)).Nodup := by
    rw [List.map_append, List.nodup_append]
    refine ⟨?_, h.own, ?_⟩
    · cases k with
      | none => exact List.nodup_nil
      | some k => exact List.nodup_singleton _
    · intro a ha b hb
      obtain ⟨g, hg, rfl⟩ := List.mem_map.mp ha
      obtain ⟨g', hg', rfl⟩ := List.mem_map.mp hb
      have hlt := lt_length_of_content (h.holds g' hg')
      have hlength := (hnew g hg).1
      omega
  refine ⟨?_, nodup_cells hkept hfresh, hrefused.trans h.refused⟩
  intro g hg
  rcases List.mem_append.mp (hkept.subset hg) with hnow | hbefore
  · exact (hnew g hnow).2
  · rw [hold g hbefore]
    exact h.holds g hbefore

/-- The one-shot that is called is in nobody else's hands, so all others stay as they are. -/
theorem invokes {caller : Caller} {g : Held κ}
    (hholds : ∀ h ∈ g :: d.kept, (d.content h).payload? = some (h.callable recipe))
    (hown : ((g :: d.kept).map (·.cell)).Nodup) (hrefused : d.refused = []) :
    (d.invoke caller g).IsStocked recipe := by
  obtain ⟨hother, hnodup⟩ := List.nodup_cons.mp hown
  have hfound : (({} : Rack 0).keep (d.content g)).begin? .loose ≠ none := by
    rw [Ne, Rack.begin?_keep_eq_none_iff, hholds g List.mem_cons_self]
    nofun
  obtain ⟨⟨c, rack⟩, hbegun⟩ := Option.ne_none_iff_exists'.mp hfound
  simp only [invoke, hbegun]
  refine ⟨?_, hnodup, hrefused⟩
  intro h hh
  have hne : g.cell ≠ h.cell := by
    intro heq
    exact hother (List.mem_map.mpr ⟨h, hh, heq.symm⟩)
  show ((d.cells.set g.cell _)[h.cell]?.getD .empty).payload? = _
  rw [List.getElem?_set_ne hne]
  exact hholds h (List.mem_cons_of_mem g hh)

theorem step (h : d.IsStocked recipe) (m : Move α κ ω) : (d.step recipe m).IsStocked recipe := by
  cases m with
  | queue op => exact h.shelves (kept_queue recipe d op) rfl rfl
  | signal i op =>
    cases hs : d.signals[i]? with
    | none =>
      simp only [Depot.step, hs]
      exact h
    | some s => refine h.shelves (kept_signal recipe hs op) ?_ ?_ <;> simp only [Depot.step, hs]
  | call n =>
    cases hc : d.taken[n]? with
    | none =>
      simp only [Depot.step, hc]
      exact h
    | some c =>
      have hkept := kept_of_taken hc
      simp only [Depot.step, hc]
      refine invokes ?_ ?_ h.refused
      · exact fun g hg => h.holds g (hkept.mem_iff.mp hg)
      · exact h.own.perm (hkept.map _).symm
  | drop n =>
    have hless : (kept { d with taken := d.taken.eraseIdx n }).Sublist d.kept :=
      ((List.eraseIdx_sublist _ n).map _).append_right _
    exact ⟨fun g hg => h.holds g (hless.mem hg), (hless.map _).nodup h.own, h.refused⟩

/-- What holds its callable is not empty, and its call is not refused. -/
theorem full (h : d.IsStocked recipe) {g : Held κ} (hg : g ∈ d.kept) :
    (d.content g).isEmpty = false ∧ (d.content g).IsAnswered := by
  have hholds := h.holds g hg
  refine ⟨?_, OneShot.isAnswered_of_payload? hholds⟩
  rw [← Bool.not_eq_true, OneShot.isEmpty_iff, hholds]
  nofun

end IsStocked

/-- **In no run does a caller find an empty one-shot.** -/
theorem isStocked_after (recipe : κ → OneShot.Recipe) (n : Nat) (ms : List (Move α κ ω)) :
    (after recipe n ms).IsStocked recipe := by
  induction ms using List.reverseRecOn with
  | nil => exact .start n
  | append_singleton ms m ih =>
    rw [after_concat]
    exact ih.step m

/-- A job, a firing and a late registration: two are called, and one is still to be called. -/
example :
    let d : Depot Nat Nat Unit := after (fun _ => ⟨none, [], ⟨0, 1⟩⟩) 1
      [.queue (.create 0), .queue (.asyncPop 0 7), .signal 0 (.register 8), .queue (.push 0 5),
        .queue .runJob, .signal 0 .fire, .signal 0 (.register 9), .call 1, .call 0]
    d.cells.map (·.isEmpty) = [true, true, false] ∧ d.taken.map (·.2.body) = [9] := by
  decide

/-! ### The same queues and signals -/

/-- The operation on queues that a move is. -/
def Move.queue? : Move α κ ω → Option (Handoff.Op α κ ω)
  | queue op => some op
  | _ => none

/-- The operation on a signal that a move is. -/
def Move.signal? (i : Nat) : Move α κ ω → Option (Signal.Op κ)
  | signal j op => if j = i then some op else none
  | _ => none

theorem body_next (d : Depot α κ ω) : Function.LeftInverse Held.body d.next :=
  fun _ => rfl

theorem exchange_invoke (d : Depot α κ ω) (caller : Caller) (h : Held κ) :
    (d.invoke caller h).exchange = d.exchange ∧ (d.invoke caller h).signals = d.signals := by
  unfold invoke
  split <;> exact ⟨rfl, rfl⟩

/-- A move that is no operation on queues leaves them as they are, and likewise for a signal. -/
theorem exchange_step (recipe : κ → OneShot.Recipe) (d : Depot α κ ω) (m : Move α κ ω) :
    (d.step recipe m).exchange.relabel Held.body =
      (d.exchange.relabel Held.body).after m.queue?.toList := by
  cases m with
  | queue op =>
    have hop := Handoff.Op.relabel_of_leftInverse d.body_next op
    show (d.exchange.step (op.relabel d.next)).relabel Held.body = _
    rw [Exchange.relabel_step, hop]
    rfl
  | signal i op =>
    simp only [step]
    split <;> rfl
  | call n =>
    simp only [step]
    split
    · rfl
    · rw [(exchange_invoke _ _ _).1]
      rfl
  | drop n => rfl

/-- A signal with the plain callbacks. -/
def plain? (d : Depot α κ ω) (i : Nat) : Option (Signal κ) :=
  d.signals[i]?.map (Signal.relabel Held.body)

theorem plain?_step (recipe : κ → OneShot.Recipe) (d : Depot α κ ω) (m : Move α κ ω)
    (i : Nat) :
    (d.step recipe m).plain? i = (d.plain? i).map fun s => s.after (m.signal? i).toList := by
  have same : d.plain? i = (d.plain? i).map fun s => s.after [] := (Option.map_id_apply).symm
  cases m with
  | queue op => exact same
  | signal j op =>
    simp only [step, Move.signal?]
    cases hs : d.signals[j]? with
    | none =>
      by_cases hj : j = i
      · subst hj
        rw [plain?, hs]
        rfl
      · rw [if_neg hj]
        exact same
    | some s =>
      by_cases hj : j = i
      · subst hj
        obtain ⟨hlt, -⟩ := List.getElem?_eq_some_iff.mp hs
        have hop := Signal.Op.relabel_of_leftInverse d.body_next op
        dsimp only [plain?]
        rw [if_pos rfl, List.getElem?_set_self hlt, hs, Option.map_some, Signal.relabel_step, hop]
        rfl
      · dsimp only [plain?]
        rw [if_neg hj, List.getElem?_set_ne hj]
        exact same
  | call n =>
    simp only [step]
    split
    · exact same
    · rw [plain?, (exchange_invoke _ _ _).2]
      exact same
  | drop n => exact same

/-- A depot is what its operations make of queues and signals whose callbacks are plain values, and
it hands out the same callbacks. -/
structure Mirrors (d : Depot α κ ω) (n : Nat) (ms : List (Move α κ ω)) : Prop where
  exchange : d.exchange.relabel Held.body = Exchange.after {} (ms.filterMap Move.queue?)
  invoked : ∀ op, (Exchange.after {} (ms.filterMap Move.queue?)).invoked? op =
    (d.exchange.invoked? (op.relabel d.next)).map (.map Held.body id)
  signals : ∀ i < n, ∃ s, d.signals[i]? = some s ∧
    s.relabel Held.body = Signal.fresh.after (ms.filterMap (Move.signal? i)) ∧
    ∀ op, (Signal.fresh.after (ms.filterMap (Move.signal? i))).handedOut op =
      (s.handedOut (op.relabel d.next)).map Held.body

theorem exchange_after (recipe : κ → OneShot.Recipe) (n : Nat) (ms : List (Move α κ ω)) :
    (after recipe n ms).exchange.relabel Held.body =
      Exchange.after {} (ms.filterMap Move.queue?) := by
  induction ms using List.reverseRecOn with
  | nil => rfl
  | append_singleton ms m ih =>
    rw [after_concat, exchange_step, ih, List.filterMap_append, Exchange.after_append]
    cases m <;> rfl

theorem plain?_after (recipe : κ → OneShot.Recipe) {n i : Nat} (hi : i < n)
    (ms : List (Move α κ ω)) : (after recipe n ms).plain? i =
      some (Signal.fresh.after (ms.filterMap (Move.signal? i))) := by
  induction ms using List.reverseRecOn with
  | nil =>
    show (List.replicate n Signal.fresh)[i]?.map _ = _
    rw [List.getElem?_replicate_of_lt hi]
    rfl
  | append_singleton ms m ih =>
    have hlast : [m].filterMap (Move.signal? i) = (m.signal? i).toList := by
      cases h : m.signal? i <;> simp [h]
    rw [after_concat, plain?_step, ih, List.filterMap_append, Signal.after_append, hlast]
    rfl

theorem mirrors_after (recipe : κ → OneShot.Recipe) (n : Nat) (ms : List (Move α κ ω)) :
    (after recipe n ms).Mirrors n ms := by
  have hexchange := exchange_after recipe n ms
  refine ⟨hexchange, ?_, ?_⟩
  · intro op
    have hinvoked := Exchange.invoked?_relabel Held.body (after recipe n ms).exchange
      (op.relabel (after recipe n ms).next)
    rwa [hexchange, Handoff.Op.relabel_of_leftInverse (body_next _)] at hinvoked
  · intro i hi
    obtain ⟨s, hs, hlife⟩ := Option.map_eq_some_iff.mp (plain?_after recipe hi ms)
    refine ⟨s, hs, hlife, ?_⟩
    intro op
    have hhanded := s.handedOut_relabel Held.body (op.relabel (after recipe n ms).next)
    rwa [hlife, Signal.Op.relabel_of_leftInverse (body_next _)] at hhanded

end Depot

end Dialogue
