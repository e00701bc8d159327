/-
What becomes of every value that is pushed.

Stops cut the history of a queue into periods.  What happens to a value is dated by the number of
stops before it, so a value was discarded by the first stop after its push if both have one date,
and a value that was delivered or is still buffered was not stopped in between if its date is that
of its push.

The invariant is `Account`: the pushes are those whose fate is settled, in order, and then the
values in the buffer, all of the current period; and the wait in progress has a higher number than
every wait that was given a value.  `Alters` has one case for each thing that can happen, and so has
the step of the invariant.
-/
import Dialogue.Proofs.Handoff.Entries

namespace Dialogue.Handoff

/-- A value, and the number of stops before something happened to it. -/
structure Dated (α : Type) where
  value : α
  stops : Nat

/-- What becomes of a value that was pushed. -/
inductive Fate
  | delivered (ticket : Nat)
  | discarded
  | buffered
deriving DecidableEq

variable {α β κ ω : Type}

/-! ### Reading a history -/

namespace Entry

/-- The queue was stopped. -/
def isStop : Entry α → Bool
  | .stopped _ => true
  | _ => false

/-- What was pushed. -/
def push (n : Nat) : Entry α → List (Dated α)
  | .pushed a => [⟨a, n⟩]
  | _ => []

/-- What was delivered, and to which wait. -/
def delivery (n : Nat) : Entry α → List (Nat × Dated α)
  | .delivered t a => [(t, ⟨a, n⟩)]
  | _ => []

/-- What was discarded. -/
def discard (n : Nat) : Entry α → List (Dated α)
  | .stopped values => values.map (Dated.mk · n)
  | _ => []

end Entry

/-- How often a queue was stopped. -/
def stops (h : List (Entry α)) : Nat :=
  h.countP Entry.isStop

/-- What is read off the entries of a history, given the number of stops before each. -/
def reading (f : Nat → Entry α → List β) : Nat → List (Entry α) → List β
  | _, [] => []
  | n, e :: h => f n e ++ reading f (n + stops [e]) h

/-- All that was pushed. -/
def pushes (h : List (Entry α)) : List (Dated α) :=
  reading Entry.push 0 h

/-- All that was delivered, with the waits that were given it. -/
def deliveries (h : List (Entry α)) : List (Nat × Dated α) :=
  reading Entry.delivery 0 h

/-- All that was discarded. -/
def discards (h : List (Entry α)) : List (Dated α) :=
  reading Entry.discard 0 h

theorem stops_append (h k : List (Entry α)) : stops (h ++ k) = stops h + stops k :=
  List.countP_append

theorem reading_concat (f : Nat → Entry α → List β) (n : Nat) (h : List (Entry α))
    (e : Entry α) : reading f n (h ++ [e]) = reading f n h ++ f (n + stops h) e := by
  induction h generalizing n with
  | nil => simp [reading, stops]
  | cons d h ih =>
    have hstops : stops (d :: h) = stops [d] + stops h := stops_append [d] h
    rw [List.cons_append, reading, ih, reading, List.append_assoc, hstops, Nat.add_assoc]

theorem pushes_concat (h : List (Entry α)) (e : Entry α) :
    pushes (h ++ [e]) = pushes h ++ e.push (stops h) := by
  rw [pushes, reading_concat, Nat.zero_add, pushes]

theorem deliveries_concat (h : List (Entry α)) (e : Entry α) :
    deliveries (h ++ [e]) = deliveries h ++ e.delivery (stops h) := by
  rw [deliveries, reading_concat, Nat.zero_add, deliveries]

theorem discards_concat (h : List (Entry α)) (e : Entry α) :
    discards (h ++ [e]) = discards h ++ e.discard (stops h) := by
  rw [discards, reading_concat, Nat.zero_add, discards]

/-! ### Fates -/

/-- A push and what became of its value. -/
abbrev Fated (α : Type) : Type := Dated α × Fate

namespace Fated

/-- The delivery of the value. -/
def delivered? : Fated α → Option (Nat × Dated α)
  | (p, .delivered t) => some (t, p)
  | _ => none

/-- The discarded value. -/
def discarded? : Fated α → Option (Dated α)
  | (p, .discarded) => some p
  | _ => none

/-- The buffered value. -/
def buffered? : Fated α → Option (Dated α)
  | (p, .buffered) => some p
  | _ => none

/-- The value, unless it was discarded. -/
def kept? : Fated α → Option (Dated α)
  | (_, .discarded) => none
  | (p, _) => some p

theorem kept?_sublist (fated : List (Fated α)) :
    (fated.filterMap kept?).Sublist (fated.map Prod.fst) := by
  induction fated with
  | nil => exact .slnil
  | cons e fated ih =>
    obtain ⟨p, fate⟩ := e
    cases fate with
    | delivered t => exact ih.cons_cons p
    | discarded => exact ih.cons p
    | buffered => exact ih.cons_cons p

end Fated

/-- Values that are given one fate. -/
def allFated (n : Nat) (values : List α) (fate : Fate) : List (Fated α) :=
  values.map fun a => (⟨a, n⟩, fate)

theorem map_fst_allFated (n : Nat) (values : List α) (fate : Fate) :
    (allFated n values fate).map Prod.fst = values.map (Dated.mk · n) := by
  rw [allFated, List.map_map]
  rfl

theorem filterMap_allFated (f : Fated α → Option β) (n : Nat) (values : List α) (fate : Fate) :
    (allFated n values fate).filterMap f = values.filterMap fun a => f (⟨a, n⟩, fate) := by
  rw [allFated, List.filterMap_map]
  rfl

/--
Every push has one fate, and nothing has a fate that was not pushed.

The fates are listed in push order.  Equal dates say the rest: a value is discarded by the first
stop after its push, and it is delivered or still buffered only if no stop came in between.
-/
structure Settles (h : List (Entry α)) (values : List α) (fated : List (Fated α)) : Prop where
  pushed : pushes h = fated.map Prod.fst
  delivered : deliveries h = fated.filterMap Fated.delivered?
  discarded : discards h = fated.filterMap Fated.discarded?
  buffered : values.map (Dated.mk · (stops h)) = fated.filterMap Fated.buffered?
  /-- What was delivered, and then what is buffered, is all that was not discarded, in push
  order. -/
  kept : (deliveries h).map Prod.snd ++ values.map (Dated.mk · (stops h))
    = fated.filterMap Fated.kept?
  order : ((deliveries h).map Prod.snd ++ values.map (Dated.mk · (stops h))).Sublist (pushes h)
  /-- No wait is given two values. -/
  once : ((deliveries h).map Prod.fst).Pairwise (· < ·)

/-! ### The invariant -/

/-- The fates settled so far and the buffer account for all pushes. -/
structure Account (q : Queue α κ ω) (h : List (Entry α)) (past : List (Fated α)) : Prop where
  settled : ∀ e ∈ past, e.2 ≠ .buffered
  pushed : pushes h = past.map Prod.fst ++ q.values.map (Dated.mk · (stops h))
  delivered : deliveries h = past.filterMap Fated.delivered?
  discarded : discards h = past.filterMap Fated.discarded?
  once : ((deliveries h).map Prod.fst).Pairwise (· < ·)
  issued : ∀ d ∈ deliveries h, d.1 < q.nextTicket
  /-- The wait in progress began after every wait that was given a value. -/
  ahead : ∀ t, q.waiting.ticket? = some t → t < q.nextTicket ∧ ∀ d ∈ deliveries h, d.1 < t

namespace Account

variable {old new : Queue α κ ω} {h : List (Entry α)} {past : List (Fated α)}

theorem fresh : Account (.fresh : Queue α κ ω) [] [] := by
  refine ⟨nofun, rfl, rfl, rfl, .nil, nofun, ?_⟩
  intro t ht
  cases ht

theorem keeps (ha : Account old h past) (hk : old.Keeps new) : Account new h past := by
  have hnext := hk.next
  refine ⟨ha.settled, ?_, ha.delivered, ha.discarded, ha.once, ?_, ?_⟩
  · rw [hk.values]
    exact ha.pushed
  · intro d hd
    have := ha.issued d hd
    omega
  · intro t ht
    rcases hk.wait t ht with hold | ⟨hlo, hhi⟩
    · obtain ⟨hlt, hahead⟩ := ha.ahead t hold
      exact ⟨by omega, hahead⟩
    · refine ⟨hhi, ?_⟩
      intro d hd
      have := ha.issued d hd
      omega

theorem pushes {a : α} (ha : Account old h past) (values : new.values = old.values ++ [a])
    (ticket : new.waiting.ticket? = old.waiting.ticket?) (next : new.nextTicket = old.nextTicket) :
    Account new (h ++ [.pushed a]) past := by
  have hstops : stops (h ++ [.pushed a]) = stops h := stops_append _ _
  have hdeliveries : deliveries (h ++ [.pushed a]) = deliveries h := by
    rw [deliveries_concat]
    exact List.append_nil _
  have hdiscards : discards (h ++ [.pushed a]) = discards h := by
    rw [discards_concat]
    exact List.append_nil _
  refine ⟨ha.settled, ?_, ?_, ?_, ?_, ?_, ?_⟩
  · rw [pushes_concat, ha.pushed, hstops, values, List.map_append, List.append_assoc]
    rfl
  · rw [hdeliveries, ha.delivered]
  · rw [hdiscards, ha.discarded]
  · rw [hdeliveries]
    exact ha.once
  · rw [hdeliveries, next]
    exact ha.issued
  · rw [hdeliveries, ticket, next]
    exact ha.ahead

theorem delivers {t : Nat} {a : α} (ha : Account old h past) (wait : old.waiting.ticket? = some t)
    (values : old.values = a :: new.values) (idle : new.waiting.ticket? = none)
    (next : new.nextTicket = old.nextTicket) :
    Account new (h ++ [.delivered t a]) (past ++ [(⟨a, stops h⟩, .delivered t)]) := by
  have hstops : stops (h ++ [.delivered t a]) = stops h := stops_append _ _
  have hpushes : Handoff.pushes (h ++ [.delivered t a]) = Handoff.pushes h := by
    rw [pushes_concat]
    exact List.append_nil _
  have hdeliveries : deliveries (h ++ [.delivered t a]) = deliveries h ++ [(t, ⟨a, stops h⟩)] :=
    deliveries_concat _ _
  have hdiscards : discards (h ++ [.delivered t a]) = discards h := by
    rw [discards_concat]
    exact List.append_nil _
  obtain ⟨hissued, hahead⟩ := ha.ahead t wait
  refine ⟨?_, ?_, ?_, ?_, ?_, ?_, ?_⟩
  · intro e he
    rcases List.mem_append.mp he with hpast | hlast
    · exact ha.settled e hpast
    · rw [List.mem_singleton.mp hlast]
      nofun
  · rw [hpushes, ha.pushed, hstops, values, List.map_append, List.append_assoc]
    rfl
  · rw [hdeliveries, ha.delivered, List.filterMap_append]
    rfl
  · rw [hdiscards, ha.discarded, List.filterMap_append]
    exact (List.append_nil _).symm
  · rw [hdeliveries, List.map_append, List.pairwise_append]
    refine ⟨ha.once, List.pairwise_singleton _ _, ?_⟩
    intro s hs u hu
    obtain ⟨d, hd, rfl⟩ := List.mem_map.mp hs
    rw [List.mem_singleton.mp hu]
    exact hahead d hd
  · intro d hd
    rw [next]
    rw [hdeliveries] at hd
    rcases List.mem_append.mp hd with hpast | hlast
    · exact ha.issued d hpast
    · rw [List.mem_singleton.mp hlast]
      exact hissued
  · rw [idle]
    nofun

theorem stops (ha : Account old h past) (values : new.values = [])
    (ticket : new.waiting.ticket? = old.waiting.ticket?) (next : new.nextTicket = old.nextTicket) :
    Account new (h ++ [.stopped old.values])
      (past ++ allFated (Handoff.stops h) old.values .discarded) := by
  have hpushes : Handoff.pushes (h ++ [.stopped old.values]) = Handoff.pushes h := by
    rw [pushes_concat]
    exact List.append_nil _
  have hdeliveries : deliveries (h ++ [.stopped old.values]) = deliveries h := by
    rw [deliveries_concat]
    exact List.append_nil _
  have hdiscards : discards (h ++ [.stopped old.values])
      = discards h ++ old.values.map (Dated.mk · (Handoff.stops h)) := discards_concat _ _
  refine ⟨?_, ?_, ?_, ?_, ?_, ?_, ?_⟩
  · intro e he
    rcases List.mem_append.mp he with hpast | hlast
    · exact ha.settled e hpast
    · obtain ⟨b, -, rfl⟩ := List.mem_map.mp hlast
      nofun
  · rw [hpushes, ha.pushed, values, List.map_append, map_fst_allFated]
    exact (List.append_nil _).symm
  · rw [hdeliveries, ha.delivered, List.filterMap_append, filterMap_allFated]
    simp [Fated.delivered?]
  · rw [hdiscards, ha.discarded, List.filterMap_append, filterMap_allFated]
    simp [Fated.discarded?]
  · rw [hdeliveries]
    exact ha.once
  · rw [hdeliveries, next]
    exact ha.issued
  · rw [hdeliveries, ticket, next]
    exact ha.ahead

/-- Whatever happens to a queue is accounted for. -/
theorem next {e : Option (Entry α)} (ha : Account old h past) (hs : Alters old new e) :
    ∃ past, Account new (h ++ e.toList) past := by
  cases hs with
  | keeps hk =>
    refine ⟨past, ?_⟩
    rw [Option.toList_none, List.append_nil]
    exact ha.keeps hk
  | pushes values ticket next => exact ⟨_, ha.pushes values ticket next⟩
  | delivers wait values idle next => exact ⟨_, ha.delivers wait values idle next⟩
  | stops values ticket next => exact ⟨_, ha.stops values ticket next⟩

/-- Once the buffered values are listed as such, every push has its fate. -/
theorem settles (ha : Account old h past) :
    Settles h old.values (past ++ allFated (Handoff.stops h) old.values .buffered) := by
  have hnone : past.filterMap Fated.buffered? = [] := by
    rw [List.filterMap_eq_nil_iff]
    intro e he
    obtain ⟨p, fate⟩ := e
    have hne := ha.settled _ he
    cases fate with
    | delivered t => rfl
    | discarded => rfl
    | buffered => exact absurd rfl hne
  have hkept : past.filterMap Fated.kept? = (past.filterMap Fated.delivered?).map Prod.snd := by
    rw [List.map_filterMap]
    refine List.filterMap_congr ?_
    intro e he
    obtain ⟨p, fate⟩ := e
    have hne := ha.settled _ he
    cases fate with
    | delivered t => rfl
    | discarded => rfl
    | buffered => exact absurd rfl hne
  have hpushed : Handoff.pushes h
      = (past ++ allFated (Handoff.stops h) old.values .buffered).map Prod.fst := by
    rw [ha.pushed, List.map_append, map_fst_allFated]
  have hall : (deliveries h).map Prod.snd ++ old.values.map (Dated.mk · (Handoff.stops h))
      = (past ++ allFated (Handoff.stops h) old.values .buffered).filterMap Fated.kept? := by
    rw [List.filterMap_append, hkept, ha.delivered, filterMap_allFated]
    simp [Fated.kept?]
  refine ⟨hpushed, ?_, ?_, ?_, hall, ?_, ha.once⟩
  · rw [ha.delivered, List.filterMap_append, filterMap_allFated]
    simp [Fated.delivered?]
  · rw [ha.discarded, List.filterMap_append, filterMap_allFated]
    simp [Fated.discarded?]
  · rw [List.filterMap_append, hnone, filterMap_allFated]
    simp [Fated.buffered?]
  · rw [hall, hpushed]
    exact Fated.kept?_sublist _

end Account

/-- A wait that is over stays over, and it is given nothing. -/
theorem Queue.IsOver.next {old new : Queue α κ ω} {t : Nat} {e : Option (Entry α)}
    (h : old.IsOver t) (hs : Alters old new e) :
    new.IsOver t ∧ ∀ a, e ≠ some (.delivered t a) := by
  have hbegan := h.began
  cases hs with
  | keeps hk =>
    have hnext := hk.next
    refine ⟨⟨by omega, ?_⟩, nofun⟩
    intro ht
    rcases hk.wait t ht with hold | ⟨hlo, -⟩
    · exact h.ended hold
    · omega
  | pushes _ ticket next =>
    refine ⟨⟨by omega, ?_⟩, nofun⟩
    rw [ticket]
    exact h.ended
  | delivers wait _ idle next =>
    refine ⟨⟨by omega, ?_⟩, ?_⟩
    · rw [idle]
      nofun
    · rintro b ⟨⟩
      exact h.ended wait
  | stops _ ticket next =>
    refine ⟨⟨by omega, ?_⟩, nofun⟩
    rw [ticket]
    exact h.ended

namespace Exchange

/-! ### Along every run -/

theorem account_of_run (ops : List (Op α κ ω)) (q : Nat) :
    IsValid (after {} ops) ∧
    ∃ past, Account ((after {} ops).queue q) (history {} q ops) past := by
  refine foldl_induction step
    (P := fun ops x => IsValid x ∧
      ∃ past, Account (x.queue q) (history {} q ops) past) ?_ ?_ ops
  · exact ⟨isValid_start, [], .fresh⟩
  · intro ops op ⟨hx, past, ha⟩
    refine ⟨hx.step op, ?_⟩
    have hhistory : history {} q (ops ++ [op])
        = history {} q ops ++ ((after {} ops).record? q op).toList := seen_concat _ _ _ _ _
    rw [hhistory]
    exact ha.next (alters hx q op)

/-- A wait that is over is given nothing in any further run. -/
theorem not_delivered_of_isOver {x : Exchange α κ ω} {q t : Nat} (hx : IsValid x)
    (ht : (x.queue q).IsOver t) (ops : List (Op α κ ω)) (a : α) :
    Entry.delivered t a ∉ x.history q ops := by
  induction ops generalizing x with
  | nil => exact List.not_mem_nil
  | cons op ops ih =>
    obtain ⟨hover, hentry⟩ := ht.next (alters hx q op)
    intro hmem
    rcases List.mem_append.mp hmem with hnow | hlater
    · exact hentry a (Option.mem_toList.mp hnow)
    · exact ih (hx.step op) hover hlater

/-- A wait goes away in an operation, leaves all values and never takes one with it. -/
structure LeavesValues (x : Exchange α κ ω) (op : Op α κ ω) (q t : Nat) : Prop where
  idle : ((x.step op).queue q).waiting.ticket? = none
  values : ((x.step op).queue q).values = (x.queue q).values
  never : ∀ ops a, Entry.delivered t a ∉ x.history q (op :: ops)

theorem leavesValues_of_withdraw {x : Exchange α κ ω} {op : Op α κ ω} {q t : Nat}
    (hx : IsValid x) (ht : t < (x.queue q).nextTicket) (hentry : x.record? q op = none)
    (hstep : (x.step op).queue q = (x.queue q).withdraw t)
    (hwait : (x.queue q).waiting.ticket? = some t) : LeavesValues x op q t := by
  have hidle : ((x.step op).queue q).waiting.ticket? = none := by
    rw [hstep, Queue.ticket?_withdraw, if_pos hwait]
  refine ⟨hidle, ?_, ?_⟩
  · rw [hstep, Queue.values_withdraw]
  · intro ops a hmem
    have hover : ((x.step op).queue q).IsOver t := by
      refine ⟨?_, ?_⟩
      · rw [hstep, Queue.nextTicket_withdraw]
        exact ht
      · rw [hidle]
        nofun
    rcases List.mem_append.mp hmem with hnow | hlater
    · have hsome : x.record? q op = some (.delivered t a) := Option.mem_toList.mp hnow
      rw [hentry] at hsome
      cases hsome
    · exact not_delivered_of_isOver (hx.step op) hover ops a hlater

theorem leavesValues_withdraw {x : Exchange α κ ω} {q t : Nat} {h : Int} (hx : IsValid x)
    (ht : t < (x.queue q).nextTicket) (hh : x.handles.get? h = some q)
    (hwait : (x.queue q).waiting.ticket? = some t) : LeavesValues x (.withdraw h t) q t := by
  have hq : q < x.queues.length := lt_length_of_ticket hwait
  have hstep : x.step (.withdraw h t) = x.setQueue q ((x.queue q).withdraw t) := by
    simp only [step, via, hh, withdraw, Queue.withdraw, Queue.withdraw?, if_pos hwait,
      Option.getD_some]
  refine leavesValues_of_withdraw hx ht ?_ ?_ hwait
  · rw [record?_of_same (by rw [hstep]; rfl) rfl]
    rfl
  · rw [hstep, queue_setQueue x q q _ hq, if_pos rfl]

theorem leavesValues_dropPop {x : Exchange α κ ω} {q t : Nat} {id : Int} (hx : IsValid x)
    (ht : t < (x.queue q).nextTicket) (hp : x.pops.get? id = some ⟨q, some t⟩)
    (hwait : (x.queue q).waiting.ticket? = some t) : LeavesValues x (.dropPop id) q t := by
  have hq : q < x.queues.length := lt_length_of_ticket hwait
  have hstep : x.step (.dropPop id)
      = { x with pops := x.pops.erase id }.setQueue q ((x.queue q).withdraw t) := by
    simp only [step, dropPop, hp, releasePop]
    rfl
  refine leavesValues_of_withdraw hx ht ?_ ?_ hwait
  · rw [record?_of_same (by rw [hstep]; rfl) rfl]
    rfl
  · rw [hstep]
    exact (queue_setQueue { x with pops := x.pops.erase id } q q _ hq).trans (if_pos rfl)

/--
**No value is lost, duplicated or reordered.**

After any operations, and for each queue, every push has exactly one fate.  A wait that is
withdrawn, or whose future is dropped, leaves all values where they are and is never given one
later.
-/
theorem fates_of_run (ops : List (Op α κ ω)) (q : Nat) :
    (∃ fated, Settles (history {} q ops) ((after {} ops).queue q).values fated) ∧
      ∀ t, ((after {} ops).queue q).waiting.ticket? = some t →
        (∀ h, (after {} ops).handles.get? h = some q →
          LeavesValues (after {} ops) (.withdraw h t) q t) ∧
        ∀ id, (after {} ops).pops.get? id = some ⟨q, some t⟩ →
          LeavesValues (after {} ops) (.dropPop id) q t := by
  obtain ⟨hx, past, ha⟩ := account_of_run ops q
  refine ⟨⟨_, ha.settles⟩, ?_⟩
  intro t ht
  obtain ⟨hissued, -⟩ := ha.ahead t ht
  refine ⟨?_, ?_⟩
  · intro h hh
    exact leavesValues_withdraw hx hissued hh ht
  · intro id hp
    exact leavesValues_dropPop hx hissued hp ht

/-- A future that was woken for a value and is dropped leaves it to the next. -/
example : ({} : Exchange Nat Unit Unit).history 0
    [.create 0, .pop 0 0, .poll 0 (), .push 0 7, .dropPop 0, .pop 0 1, .poll 1 ()]
      = [.pushed 7, .delivered 1 7] := rfl

end Exchange

end Dialogue.Handoff
