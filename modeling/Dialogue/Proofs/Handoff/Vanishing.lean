/-
Queues without handles.

A queue outlives its handles: futures that wait or waited on it, and jobs that were posted for it,
refer to it as well.  The loss of the last handle stops it, and this file says what can happen to it
after that.  Pushing, stopping, waiting and withdrawing all take a handle, so the one cancellation
that the stop left is all that the queue ever gives, and only the wait that was in progress can be
given it.

There are three inductions.  The first is on the whole run and counts the losses.  The second is on
what is done after the loss; `Fading` carries it, which has one constructor for each of the ways in
which the wait can stand.  The third follows the line of jobs: what the executor appends never
overtakes the job that the stop posted.
-/
import Dialogue.Proofs.Handoff.Posting
import Dialogue.Proofs.Handoff.Waits
import Dialogue.Proofs.Handoff.Wakers
import Mathlib.Data.List.Infix

namespace Dialogue.Handoff

variable {α κ ω : Type}

/-! ### What a stop notifies -/

theorem Waiting.eq_callback {w : Waiting κ ω} {t : Nat} {k : κ}
    (h : w.claim? = some (t, some k)) : w = .callback t k := by
  cases w with
  | idle => cases h
  | callback u l =>
    cases h
    rfl
  | future u o => cases h

namespace Queue

variable {q : Queue α κ ω} {t : Nat}

theorem stop_of_future {o : Option ω} (h : q.waiting = .future t o) :
    q.stop.1 = o.map .wake ∧ q.stop.2.waiting = .future t none := by
  simp [stop, notify, isReady, h]

theorem stop_of_callback {k : κ} (h : q.waiting = .callback t k) : q.stop.1 = some .post := by
  simp [stop, notify, isReady, h]

theorem values_of_due_cancelled (h : q.due = [.cancelled]) : q.values = [] := by
  unfold due at h
  by_cases hc : q.cancelled = true
  · simpa [hc] using h
  · rw [if_neg hc, List.nil_append] at h
    obtain ⟨a, rest, -, ha, -⟩ := List.map_eq_cons_iff.mp h
    cases ha

theorem values_of_due_nil (h : q.due = []) : q.values = [] := by
  simpa using (List.append_eq_nil_iff.mp h).2

theorem nextResult?_of_due {d : Delivery α} (h : q.due = [d]) :
    ∃ r, q.nextResult? = some (d, r) := by
  cases hr : q.nextResult? with
  | none =>
    rw [due_eq_nil hr] at h
    cases h
  | some dr =>
    obtain ⟨e, r⟩ := dr
    rw [due_of_nextResult? hr] at h
    obtain ⟨rfl, -⟩ := List.cons.inj h
    exact ⟨r, rfl⟩

end Queue

namespace Exchange

variable {x y : Exchange α κ ω} {q : Nat} {op : Op α κ ω}

/-! ### The last handle -/

/-- The queue was made, and no handle refers to it any more. -/
def isGone (x : Exchange α κ ω) (q : Nat) : Bool :=
  q < x.queues.length ∧ q ∉ x.handles.values

/-- The operations of a run that took the last handle of a queue. -/
def losses (x : Exchange α κ ω) (q : Nat) (ops : List (Op α κ ω)) : List (Op α κ ω) :=
  seen step (fun x op => if x.losesHandles q op = true then some op else none) x ops

theorem isGone_iff : x.isGone q = true ↔ q < x.queues.length ∧ q ∉ x.handles.values :=
  decide_eq_true_iff

/-- No operation leads through a handle to a queue that has none. -/
theorem get?_ne_of_isGone (hgone : x.isGone q = true) (h : Int) : x.handles.get? h ≠ some q := by
  intro hget
  exact (isGone_iff.mp hgone).2 (Table.mem_values_of_get? hget)

/-- Which queues have handles before and after an operation. -/
structure Held (x y : Exchange α κ ω) : Prop where
  length : x.queues.length ≤ y.queues.length
  /-- A queue without handles gets none back. -/
  old : ∀ q ∈ y.handles.values, q ∈ x.handles.values ∨ x.queues.length ≤ q
  /-- A queue that is made has one. -/
  new : ∀ q, x.queues.length ≤ q → q < y.queues.length → q ∈ y.handles.values

theorem held_of_same (hhandles : y.handles = x.handles)
    (hlength : y.queues.length = x.queues.length) : Held x y := by
  refine ⟨by omega, ?_, ?_⟩
  · intro q hq
    rw [hhandles] at hq
    exact .inl hq
  · intro q hle hlt
    omega

theorem held_step (x : Exchange α κ ω) (op : Op α κ ω) : Held x (x.step op) := by
  by_cases hop : op.movesHandle = true
  · cases op with
    | create h =>
      have hlength := length_create x h
      have hhandles : (x.create h).2.handles = x.handles.put h x.queues.length :=
        handles_storeHandle _ _ _
      show Held x (x.create h).2
      refine ⟨by omega, ?_, ?_⟩
      · intro q hq
        rw [hhandles] at hq
        rcases Table.mem_values_of_put hq with heq | hmem
        · exact .inr (by omega)
        · exact .inl hmem
      · intro q hle hlt
        have hq : q = x.queues.length := by omega
        rw [hhandles, hq]
        exact Table.mem_values_of_get? (Table.get?_put_self _ _ _)
    | clone h target =>
      simp only [step, via]
      split
      · exact held_of_same rfl rfl
      · next p hp =>
        have hlength := length_storeHandle x target p
        refine ⟨by omega, ?_, ?_⟩
        · intro q hq
          rw [handles_storeHandle] at hq
          rcases Table.mem_values_of_put hq with heq | hmem
          · rw [heq]
            exact .inl (Table.mem_values_of_get? hp)
          · exact .inl hmem
        · intro q hle hlt
          omega
    | drop h =>
      have hlength := length_dropHandle x h
      show Held x (x.dropHandle h).2
      obtain ⟨hhandles, -⟩ | hhandles := handles_dropHandle x h
      · exact held_of_same hhandles hlength
      · refine ⟨by omega, ?_, ?_⟩
        · intro q hq
          rw [hhandles] at hq
          exact .inl (Table.mem_values_of_erase hq)
        · intro q hle hlt
          omega
    | _ => cases hop
  · obtain ⟨hhandles, hlength⟩ := handles_step x (Bool.not_eq_true _ ▸ hop)
    exact held_of_same hhandles hlength

/-- A queue is gone as soon as it lost its last handle, and for good. -/
theorem isGone_step (hx : IsValid x) (q : Nat) (op : Op α κ ω) :
    (x.step op).isGone q = (x.isGone q || x.losesHandles q op) := by
  have hheld := held_step x op
  have hlength := hheld.length
  rw [Bool.eq_iff_iff, Bool.or_eq_true, isGone_iff, isGone_iff, losesHandles, decide_eq_true_iff]
  refine ⟨?_, ?_⟩
  · rintro ⟨hmade, hnone⟩
    by_cases hold : q < x.queues.length
    · by_cases hmem : q ∈ x.handles.values
      · exact .inr ⟨hmem, hnone⟩
      · exact .inl ⟨hold, hmem⟩
    · exact absurd (hheld.new q (by omega) hmade) hnone
  · rintro (⟨hmade, hnone⟩ | ⟨hmem, hnone⟩)
    · refine ⟨by omega, ?_⟩
      intro hmem
      rcases hheld.old q hmem with hold | hnew
      · exact hnone hold
      · omega
    · have hmade := hx.made q hmem
      exact ⟨by omega, hnone⟩

theorem losesHandles_of_isGone (hgone : x.isGone q = true) (op : Op α κ ω) :
    x.losesHandles q op = false := by
  rw [losesHandles, decide_eq_false_iff_not]
  rintro ⟨hmem, -⟩
  exact (isGone_iff.mp hgone).2 hmem

/-- The last handle goes once, if it went at all. -/
theorem length_losses (q : Nat) (ops : List (Op α κ ω)) :
    (losses {} q ops).length = ((after {} ops).isGone q).toNat := by
  have hrun : IsValid (after {} ops) ∧
      (losses {} q ops).length = ((after {} ops).isGone q).toNat := by
    refine foldl_induction step (P := fun ops y => IsValid y ∧
      (losses {} q ops).length = (y.isGone q).toNat) ?_ ?_ ops
    · exact ⟨isValid_start, rfl⟩
    · intro ops op ⟨hx, hcount⟩
      refine ⟨hx.step op, ?_⟩
      rw [losses, seen_concat, List.length_append, isGone_step hx]
      rw [losses] at hcount
      rw [hcount]
      by_cases hgone : isGone (ops.foldl step {}) q = true
      · rw [hgone, losesHandles_of_isGone hgone]
        rfl
      · rw [Bool.not_eq_true] at hgone
        rw [hgone]
        cases losesHandles (ops.foldl step {}) q op <;> rfl
  exact hrun.2

/-- The loss of the last handle is a stop, and nothing else but handles changes. -/
theorem of_losesHandles (hx : IsValid x) (h : x.losesHandles q op = true) :
    op.movesHandle = true ∧
      ∃ y, SameButHandles x y ∧ q < y.queues.length ∧ x.step op = (y.stop q).2 := by
  have hop : op.movesHandle = true := by
    by_contra hno
    rw [losesHandles_of_same q (handles_step x (by simpa using hno)).1] at h
    cases h
  refine ⟨hop, ?_⟩
  have hmoves := movesHandles hx hop
  generalize x.step op = z at hmoves
  cases hmoves with
  | keeps same lost =>
    rw [lost] at h
    cases h
  | @stops y old same made lost =>
    obtain rfl := (lost q).mp h
    exact ⟨y, same, made, rfl⟩

/-! ### An operation after the loss -/

/-- What an operation can do to a queue without handles. -/
inductive Fades (x : Exchange α κ ω) (q : Nat) (op : Op α κ ω) : Prop
  | rests (mark : x.mark? q op = none) (turn : x.turn? q op = none)
      (due : ((x.step op).queue q).due = (x.queue q).due)
      (wait : ((x.step op).queue q).waiting.claim? = (x.queue q).waiting.claim?)
  /-- The future that waits is dropped or replaced. -/
  | givesUp {id t} (mark : x.mark? q op = none) (turn : x.turn? q op = some (.withdrawn t))
      (stored : x.pops.get? id = some ⟨q, some t⟩)
      (wait : (x.queue q).waiting.claim? = some (t, none))
      (dropped : (x.step op).pops.get? id ≠ some ⟨q, some t⟩)
      (due : ((x.step op).queue q).due = (x.queue q).due)
      (free : ((x.step op).queue q).waiting.claim? = none)
  /-- A job or a poll gives the wait what is due. -/
  | gives {t k d} (mark : x.mark? q op = some (.gave t d))
      (turn : x.turn? q op = some (.served t k d))
      (wait : (x.queue q).waiting.claim? = some (t, k))
      (due : (x.queue q).due = d :: ((x.step op).queue q).due)
      (free : ((x.step op).queue q).waiting.claim? = none)

theorem mark?_of_isGone (hgone : x.isGone q = true) (op : Op α κ ω) :
    x.mark? q op = (x.given? q op).map fun (t, d) => .gave t d := by
  have hasks : x.asksStop q op = false := by
    cases op with
    | stop h => simpa [asksStop] using get?_ne_of_isGone hgone h
    | _ => rfl
  have hpushed : x.pushed? q op = none := by
    cases op with
    | push h a => exact if_neg (get?_ne_of_isGone hgone h)
    | _ => rfl
  rw [mark?, hasks, losesHandles_of_isGone hgone, hpushed]
  rfl

theorem turn?_of_isGone (hgone : x.isGone q = true) (op : Op α κ ω) :
    x.turn? q op = (x.served? q op).or (x.withdrawn? q op) := by
  have hbegan : x.began? q op = none := by
    cases op with
    | asyncPop h k => exact if_neg (get?_ne_of_isGone hgone h)
    | pop h id => exact if_neg (get?_ne_of_isGone hgone h)
    | _ => rfl
  rw [turn?, hbegan, Option.none_or]

/-- Of the waits on a queue without handles only a future's is given up. -/
theorem future_of_withdrawn (hi : Issued x) (hgone : x.isGone q = true) {c : Turn α κ}
    (h : x.withdrawn? q op = some c) :
    ∃ id t, c = .withdrawn t ∧ x.pops.get? id = some ⟨q, some t⟩ ∧
      (x.queue q).waiting.claim? = some (t, none) ∧
      (x.step op).pops.get? id ≠ some ⟨q, some t⟩ := by
  rcases of_withdrawn h with ⟨n, u, -, hvia⟩ | ⟨id, t, hc, hpop, hticket, hop⟩
  · exact absurd hvia (get?_ne_of_isGone hgone n)
  · obtain ⟨o, hwait⟩ := Waiting.eq_future hticket fun k => hi.future id q t k hpop
    refine ⟨id, t, hc, hpop, ?_, ?_⟩
    · rw [hwait]
      rfl
    · rcases hop with rfl | ⟨n, p, y, rfl, hvia, hmade⟩
      · simp only [step, dropPop, hpop]
        rw [pops_releasePop, Table.get?_erase_self]
        simp
      · -- the future that takes its place waits elsewhere
        obtain ⟨notice, new, -, rfl⟩ := of_pop? hmade
        simp only [step, via, hvia, hmade, Option.getD_some]
        rw [pops_storePop, Table.get?_put_self]
        intro heq
        cases heq
        exact get?_ne_of_isGone hgone n hvia

theorem fades (hx : IsValid x) (hi : Issued x) (hgone : x.isGone q = true) (op : Op α κ ω) :
    Fades x q op := by
  have hmark := mark?_of_isGone hgone op
  have hturn := turn?_of_isGone hgone op
  have hundergoes := undergoes hx q op
  have hturns := turns_step hx hi q op
  cases hgiven : x.given? q op with
  | some given =>
    obtain ⟨t, d⟩ := given
    rw [hgiven, Option.map_some] at hmark
    rw [served?, hgiven, Option.map_some, Option.some_or] at hturn
    rw [hmark] at hundergoes
    rw [hturn] at hturns
    cases hundergoes with
    | @gives _ _ r _ result queue =>
      cases hturns with
      | serves wait free _ =>
        refine .gives hmark hturn wait ?_ free
        rw [Queue.due_of_nextResult? result, queue]
        rfl
  | none =>
    rw [hgiven, Option.map_none] at hmark
    rw [served?, hgiven, Option.map_none, Option.none_or] at hturn
    rw [hmark] at hundergoes
    cases hundergoes with
    | rests hrests =>
      cases hwithdrawn : x.withdrawn? q op with
      | none =>
        rw [hwithdrawn] at hturn
        rw [hturn] at hturns
        cases hturns with
        | rests wait _ => exact .rests hmark hturn hrests.due_eq wait
      | some c =>
        obtain ⟨id, t, rfl, hstored, hwait, hdropped⟩ := future_of_withdrawn hi hgone hwithdrawn
        rw [hwithdrawn] at hturn
        rw [hturn] at hturns
        cases hturns with
        | withdraws _ free _ =>
          exact .givesUp hmark hturn hstored hwait hdropped hrests.due_eq free

/-- No future is made to wait on a queue without handles. -/
theorem stored_of_isGone (hx : IsValid x) (hi : Issued x) (hgone : x.isGone q = true) {id : Int}
    {t : Nat} (h : (x.step op).pops.get? id = some ⟨q, some t⟩) :
    x.pops.get? id = some ⟨q, some t⟩ := by
  rcases stored_step hx hi h with hold | ⟨n, rfl, -, -⟩
  · exact hold
  · simp only [step, via] at h
    split at h
    · exact h
    · next p hvia =>
      cases hmade : x.pop? id p with
      | none =>
        rw [hmade] at h
        exact h
      | some y =>
        obtain ⟨notice, new, -, rfl⟩ := of_pop? hmade
        rw [hmade, Option.getD_some, pops_storePop, Table.get?_put_self] at h
        cases h
        exact absurd hvia (get?_ne_of_isGone hgone n)

/-! ### After the loss -/

/-- How a queue stands that has no handles, by what happened to its wait since it was stopped.  The
wait was in progress then, if there was one. -/
inductive Fading (claim : Option (Nat × Option κ)) (r : Queue α κ ω) :
    List (Turn α κ) → List (Mark α) → Prop
  | waits (due : r.due = [.cancelled]) (wait : r.waiting.claim? = claim) : Fading claim r [] []
  | withdrawn {t} (held : claim = some (t, none)) (due : r.due = [.cancelled])
      (free : r.waiting.claim? = none) : Fading claim r [.withdrawn t] []
  | served {t k} (held : claim = some (t, k)) (due : r.due = []) (free : r.waiting.claim? = none) :
      Fading claim r [.served t k .cancelled] [.gave t .cancelled]

namespace Fading

variable {claim : Option (Nat × Option κ)} {r : Queue α κ ω} {h : List (Turn α κ)}
  {g : List (Mark α)}

theorem values (hf : Fading claim r h g) : r.values = [] := by
  cases hf with
  | waits due _ => exact Queue.values_of_due_cancelled due
  | withdrawn _ due _ => exact Queue.values_of_due_cancelled due
  | served _ due _ => exact Queue.values_of_due_nil due

theorem marks (hf : Fading claim r h g) : g = [] ∨ ∃ t, g = [.gave t .cancelled] := by
  cases hf with
  | waits _ _ => exact .inl rfl
  | withdrawn _ _ _ => exact .inl rfl
  | served _ _ _ => exact .inr ⟨_, rfl⟩

/-- A wait in progress is the one that was, and nothing has happened to it. -/
theorem of_claim (hf : Fading claim r h g) {c : Nat × Option κ} (hc : r.waiting.claim? = some c) :
    claim = some c ∧ h = [] ∧ g = [] ∧ r.due = [.cancelled] := by
  cases hf with
  | waits due wait => exact ⟨wait.symm.trans hc, rfl, rfl, due⟩
  | withdrawn _ _ free =>
    rw [free] at hc
    cases hc
  | served _ _ free =>
    rw [free] at hc
    cases hc

theorem ticket (hf : Fading claim r h g) {t : Nat} (ht : r.waiting.ticket? = some t) :
    claim.map Prod.fst = some t := by
  rw [← Waiting.map_fst_claim?] at ht
  obtain ⟨c, hc, rfl⟩ := Option.map_eq_some_iff.mp ht
  rw [(hf.of_claim hc).1]
  rfl

end Fading

/-- What is known after operations on an exchange in which a queue had been stopped by the loss of
its last handle. -/
structure Lingers (x : Exchange α κ ω) (q : Nat) (ops : List (Op α κ ω)) : Prop where
  valid : IsValid (x.after ops)
  issued : Issued (x.after ops)
  gone : (x.after ops).isGone q = true
  fading : Fading (x.queue q).waiting.claim? ((x.after ops).queue q) (x.turns q ops) (x.marks q ops)
  /-- A future that has not resolved was neither served nor withdrawn. -/
  stored : ∀ id t, (x.queue q).waiting.claim? = some (t, none) →
    (x.after ops).pops.get? id = some ⟨q, some t⟩ → x.turns q ops = []

theorem Fading.step {claim : Option (Nat × Option κ)} {h : List (Turn α κ)} {g : List (Mark α)}
    (hf : Fading claim (x.queue q) h g) (hs : Fades x q op) :
    Fading claim ((x.step op).queue q) (h ++ (x.turn? q op).toList)
      (g ++ (x.mark? q op).toList) := by
  cases hs with
  | rests mark turn due wait =>
    rw [mark, turn, Option.toList_none, Option.toList_none, List.append_nil, List.append_nil]
    cases hf with
    | waits hdue hwait => exact .waits (due.trans hdue) (wait.trans hwait)
    | withdrawn held hdue free => exact .withdrawn held (due.trans hdue) (wait.trans free)
    | served held hdue free => exact .served held (due.trans hdue) (wait.trans free)
  | givesUp mark turn stored wait dropped due free =>
    obtain ⟨held, rfl, rfl, hdue⟩ := hf.of_claim wait
    rw [mark, turn]
    exact .withdrawn held (due.trans hdue) free
  | gives mark turn wait due free =>
    obtain ⟨held, rfl, rfl, hdue⟩ := hf.of_claim wait
    rw [mark, turn]
    rw [hdue] at due
    obtain ⟨rfl, hrest⟩ := List.cons.inj due
    exact .served held hrest.symm free

theorem lingers (hx : IsValid x) (hi : Issued x) (hgone : x.isGone q = true)
    (hdue : (x.queue q).due = [.cancelled]) (ops : List (Op α κ ω)) : Lingers x q ops := by
  refine foldl_induction Exchange.step (s := x) (P := fun ops _ => Lingers x q ops) ?_ ?_ ops
  · exact ⟨hx, hi, hgone, .waits hdue rfl, fun _ _ _ _ => rfl⟩
  · intro ops op ⟨hv, hi, hgone, hfading, hstored⟩
    have hfades := fades hv hi hgone op
    have hafter : x.after (ops ++ [op]) = (x.after ops).step op := after_append _ _ _
    have hturns : x.turns q (ops ++ [op]) = x.turns q ops ++ ((x.after ops).turn? q op).toList :=
      seen_concat _ _ _ _ _
    have hmarks : x.marks q (ops ++ [op]) = x.marks q ops ++ ((x.after ops).mark? q op).toList :=
      seen_concat _ _ _ _ _
    refine ⟨?_, ?_, ?_, ?_, ?_⟩
    · rw [hafter]
      exact hv.step op
    · rw [hafter]
      exact hi.step hv op
    · rw [hafter, isGone_step hv, hgone, Bool.true_or]
    · rw [hafter, hturns, hmarks]
      exact hfading.step hfades
    · intro id t hclaim hpop
      rw [hafter] at hpop
      have hold := stored_of_isGone hv hi hgone hpop
      have hnone := hstored id t hclaim hold
      rw [hturns, hnone, List.nil_append]
      cases hfades with
      | rests _ turn _ _ =>
        rw [turn]
        rfl
      | @givesUp other u _ turn hother wait dropped _ _ =>
        cases hclaim.symm.trans (hfading.of_claim wait).1
        obtain rfl := hi.alone id other q t hold hother
        exact absurd hpop dropped
      | @gives u k d _ turn wait _ _ =>
        cases hclaim.symm.trans (hfading.of_claim wait).1
        exact absurd turn (not_served_of_stored hi hold hpop none)

/-- As long as its future has not resolved, the wait is in progress and its next poll is
cancelled. -/
theorem Lingers.cancels {ops : List (Op α κ ω)} (hl : Lingers x q ops) {id : Int} {t : Nat}
    (hclaim : (x.queue q).waiting.claim? = some (t, none))
    (hpop : (x.after ops).pops.get? id = some ⟨q, some t⟩) :
    ((x.after ops).queue q).waiting.ticket? = some t ∧
      ∀ waker, ((x.after ops).pollPop id q t waker).1 = .delivered .cancelled := by
  have hfading := hl.fading
  rw [hl.stored id t hclaim hpop] at hfading
  generalize x.marks q ops = given at hfading
  cases hfading with
  | waits hdue hwait =>
    have hticket : ((x.after ops).queue q).waiting.ticket? = some t := by
      rw [← Waiting.map_fst_claim?, hwait, hclaim]
      rfl
    refine ⟨hticket, ?_⟩
    intro waker
    obtain ⟨r, hr⟩ := Queue.nextResult?_of_due hdue
    rw [polled_pollPop, Queue.poll, if_pos hticket, hr]

/-! ### The line of jobs -/

/-- The executor accepts and keeps jobs as it likes, but it runs them first come first served. -/
def IsFifo (x : Exchange α κ ω) : List (Op α κ ω) → Prop
  | [] => True
  | op :: ops =>
    (∀ jobs, op = .executor jobs → x.jobs.ready <+: jobs.ready) ∧ IsFifo (x.step op) ops

theorem ready_dispatch (x : Exchange α κ ω) (q : Nat) (n : Option (Notice ω)) :
    x.jobs.ready <+: (x.dispatch q n).2.jobs.ready := by
  unfold dispatch
  split
  · exact List.prefix_refl _
  · exact List.prefix_refl _
  · split
    · next jobs hjobs =>
      show x.jobs.ready <+: jobs.ready
      rw [Roster.ready_of_spawn? hjobs]
      exact List.prefix_append _ _
    · exact List.prefix_refl _

theorem ready_commit (x : Exchange α κ ω) (q : Nat) (r : Option (Notice ω) × Queue α κ ω) :
    x.jobs.ready <+: (x.commit q r).2.jobs.ready :=
  ready_dispatch (x.setQueue q r.2) q r.1

theorem ready_released (x : Exchange α κ ω) (q : Nat) :
    x.jobs.ready <+: (x.released q).2.jobs.ready := by
  unfold released
  split
  · exact List.prefix_refl _
  · exact ready_commit x q _

theorem ready_storeHandle (x : Exchange α κ ω) (h : Int) (q : Nat) :
    x.jobs.ready <+: (x.storeHandle h q).2.jobs.ready := by
  unfold storeHandle
  dsimp only
  split
  · exact List.prefix_refl _
  · next old _ => exact ready_released { x with handles := x.handles.put h q } old

theorem jobs_releasePop (x : Exchange α κ ω) (p : Pop) : (x.releasePop p).jobs = x.jobs := by
  unfold releasePop
  split <;> rfl

theorem jobs_storePop (x : Exchange α κ ω) (id : Int) (p : Pop) :
    (x.storePop id p).jobs = x.jobs := by
  unfold storePop
  dsimp only
  split
  · rfl
  · rw [jobs_releasePop]

/-- Whatever runs no job leaves the line as it is or appends to it. -/
theorem ready_step (x : Exchange α κ ω) {op : Op α κ ω} (hrun : op ≠ .runJob)
    (hline : ∀ jobs, op = .executor jobs → x.jobs.ready <+: jobs.ready) :
    x.jobs.ready <+: (x.step op).jobs.ready := by
  have viaExtends : ∀ (h : Int) (f : Nat → Exchange α κ ω),
      (∀ q, x.jobs.ready <+: (f q).jobs.ready) → x.jobs.ready <+: (x.via h f).jobs.ready := by
    intro h f hf
    unfold via
    split
    · exact List.prefix_refl _
    · exact hf _
  cases op with
  | create h => exact ready_storeHandle { x with queues := x.queues ++ [Queue.fresh] } h _
  | clone h target => exact viaExtends h _ fun q => ready_storeHandle x target q
  | drop h =>
    simp only [step, dropHandle]
    split
    · exact List.prefix_refl _
    · next q _ => exact ready_released { x with handles := x.handles.erase h } q
  | push h a => exact viaExtends h _ fun q => ready_commit x q _
  | stop h => exact viaExtends h _ fun q => ready_commit x q _
  | asyncPop h k =>
    refine viaExtends h _ fun q => ?_
    unfold asyncPop?
    cases (x.queue q).wait? (.callback · k) with
    | none => exact List.prefix_refl _
    | some r => exact ready_commit x q r.2
  | pop h id =>
    refine viaExtends h _ fun q => ?_
    unfold pop?
    cases (x.queue q).wait? (.future · none) with
    | none => exact List.prefix_refl _
    | some r =>
      show x.jobs.ready <+: ((x.commit q r.2).2.storePop id ⟨q, some r.1⟩).jobs.ready
      rw [jobs_storePop]
      exact ready_commit x q r.2
  | poll id waker =>
    simp only [step]
    split
    · unfold pollPop
      dsimp only
      split <;> exact List.prefix_refl _
    · exact List.prefix_refl _
  | dropPop id =>
    simp only [step, dropPop]
    split
    · exact List.prefix_refl _
    · rw [jobs_releasePop]
  | withdraw h t =>
    refine viaExtends h _ fun q => ?_
    unfold withdraw
    split <;> exact List.prefix_refl _
  | runJob => exact absurd rfl hrun
  | executor jobs => exact hline jobs rfl

theorem ready_runJob (x : Exchange α κ ω) : (x.step .runJob).jobs.ready = x.jobs.ready.tail := by
  simp only [step, nextJob?, Roster.next?]
  cases hready : x.jobs.ready with
  | nil => exact hready
  | cons q rest =>
    dsimp only [Option.map_some]
    split <;> rfl

end Exchange

/-- How many jobs the executor was asked to run. -/
def ran (ops : List (Op α κ ω)) : Nat :=
  ops.countP fun
    | .runJob => true
    | _ => false

theorem ran_runJob (ops : List (Op α κ ω)) : ran (.runJob :: ops) = ran ops + 1 :=
  List.countP_cons_of_pos rfl

theorem ran_cons {op : Op α κ ω} (h : op ≠ .runJob) (ops : List (Op α κ ω)) :
    ran (op :: ops) = ran ops := by
  refine List.countP_cons_of_neg ?_
  cases op with
  | runJob => exact absurd rfl h
  | _ => exact Bool.false_ne_true

/-- More jobs than a number were run: then one was run after just that many. -/
theorem split_of_lt_ran {n : Nat} {ops : List (Op α κ ω)} (h : n < ran ops) :
    ∃ before after, ops = before ++ .runJob :: after ∧ ran before = n := by
  induction ops generalizing n with
  | nil => exact absurd h (Nat.not_lt_zero n)
  | cons op ops ih =>
    by_cases hop : op = .runJob
    · subst hop
      rw [ran_runJob] at h
      cases n with
      | zero => exact ⟨[], ops, rfl, rfl⟩
      | succ n =>
        obtain ⟨before, after, rfl, hn⟩ := ih (n := n) (by omega)
        refine ⟨.runJob :: before, after, rfl, ?_⟩
        rw [ran_runJob, hn]
    · rw [ran_cons hop] at h
      obtain ⟨before, after, rfl, hn⟩ := ih h
      refine ⟨op :: before, after, rfl, ?_⟩
      rw [ran_cons hop, hn]

namespace Exchange

variable {x y : Exchange α κ ω} {q : Nat} {op : Op α κ ω}

theorem IsFifo.of_append {ops more : List (Op α κ ω)} (h : IsFifo x (ops ++ more)) :
    IsFifo x ops := by
  induction ops generalizing x with
  | nil => trivial
  | cons op ops ih => exact ⟨h.1, ih h.2⟩

/-- What was in line before is still in line, in front, but for the jobs that were run. -/
theorem IsFifo.ready {ops : List (Op α κ ω)} (h : IsFifo x ops) :
    x.jobs.ready.drop (ran ops) <+: (x.after ops).jobs.ready := by
  induction ops generalizing x with
  | nil => exact List.prefix_refl _
  | cons op ops ih =>
    have hnext := ih h.2
    show _ <+: ((x.step op).after ops).jobs.ready
    by_cases hop : op = .runJob
    · subst hop
      rw [ready_runJob, List.drop_tail] at hnext
      rw [ran_runJob]
      exact hnext
    · rw [ran_cons hop]
      exact (List.IsPrefix.drop (ready_step x hop h.1) _).trans hnext

/-! ### A callback that waited -/

/-- A stop posts for a waiting callback, if the executor accepts it. -/
theorem ready_commit_post (x : Exchange α κ ω) (q : Nat)
    {r : Option (Notice ω) × Queue α κ ω} (h : r.1 = some .post) :
    (x.commit q r).2.jobs.ready = x.jobs.ready ++ if x.jobs.accepting = true then [q] else [] := by
  have hjobs : (x.setQueue q r.2).jobs = x.jobs := rfl
  rw [commit, h, dispatch, hjobs, Roster.spawn?]
  by_cases hopen : x.jobs.accepting = true
  · rw [if_pos hopen, if_pos hopen]
  · rw [if_neg hopen, if_neg hopen, List.append_nil]
    rfl

/-- What becomes of a callback that waits on a queue when its last handle goes, from `x` to `y`. -/
structure CancelsCallback (x y : Exchange α κ ω) (q t : Nat) (k : κ)
    (rest : List (Op α κ ω)) : Prop where
  posted : y.jobs.ready = x.jobs.ready ++ if x.jobs.accepting = true then [q] else []
  /-- It waits on, or it was called and told that it was cancelled.  Nobody withdraws it. -/
  fate : (y.turns q rest = [] ∧ ((y.after rest).queue q).waiting = .callback t k) ∨
    y.turns q rest = [.served t (some k) .cancelled]
  /-- While it waits, a job of its queue calls it, whatever that job was posted for. -/
  called : y.turns q rest = [] → ∀ jobs, (y.after rest).jobs.next? = some (q, jobs) →
    (y.after rest).invoked? .runJob = some (k, .cancelled)
  /-- An accepted job is in line while it waits. -/
  inLine : x.jobs.accepting = true → IsFifo y rest → y.turns q rest = [] →
    q ∈ (y.after rest).jobs.ready
  /-- It was called by the time that job ran. -/
  inTime : x.jobs.accepting = true → IsFifo y rest → x.jobs.ready.length < ran rest →
    y.turns q rest = [.served t (some k) .cancelled]

theorem Lingers.callback {ops : List (Op α κ ω)} (hl : Lingers x q ops) {t : Nat} {k : κ}
    (hclaim : (x.queue q).waiting.claim? = some (t, some k)) :
    (x.turns q ops = [] ∧ x.marks q ops = [] ∧ ((x.after ops).queue q).due = [.cancelled] ∧
        ((x.after ops).queue q).waiting = .callback t k) ∨
      x.turns q ops = [.served t (some k) .cancelled] := by
  have hfading := hl.fading
  rw [hclaim] at hfading
  generalize x.turns q ops = h at hfading ⊢
  generalize x.marks q ops = g at hfading ⊢
  cases hfading with
  | waits due wait => exact .inl ⟨rfl, rfl, due, Waiting.eq_callback wait⟩
  | withdrawn held _ _ => cases held
  | served held _ _ =>
    cases held
    exact .inr rfl

/-- A job of the queue finds the callback and the cancellation. -/
theorem called_of_next? {t : Nat} {k : κ} {jobs : Roster Nat}
    (hnext : x.jobs.next? = some (q, jobs)) (hwait : (x.queue q).waiting = .callback t k)
    (hdue : (x.queue q).due = [.cancelled]) :
    x.invoked? .runJob = some (k, .cancelled) ∧
    x.mark? q .runJob = some (.gave t .cancelled) := by
  obtain ⟨hjob, hmark⟩ := (offers x q).job jobs t k hnext hwait
  rw [hdue] at hjob hmark
  refine ⟨?_, hmark⟩
  rw [Option.map_eq_some_iff] at hjob
  obtain ⟨⟨job, y⟩, hnextJob, hjob⟩ := hjob
  rw [invoked?, hnextJob]
  exact hjob

theorem next?_of_prefix {jobs : Roster Nat} (h : [q] <+: jobs.ready) :
    ∃ rest, jobs.next? = some (q, rest) := by
  obtain ⟨rest, hrest⟩ := h
  unfold Roster.next?
  rw [← hrest]
  exact ⟨_, rfl⟩

theorem cancelsCallback {rest : List (Op α κ ω)} {t : Nat} {k : κ} (hx : IsValid x)
    (hlost : x.losesHandles q op = true) (hwait : (x.queue q).waiting = .callback t k)
    (hl : ∀ ops, Lingers (x.step op) q ops) : CancelsCallback x (x.step op) q t k rest := by
  obtain ⟨hop, y, same, -, hstop⟩ := of_losesHandles hx hlost
  have hclaim : ((x.step op).queue q).waiting.claim? = some (t, some k) := by
    rw [queue_of_movesHandle hx q hop, if_pos hlost, Queue.claim?_stop, hwait]
    rfl
  have hposted : (x.step op).jobs.ready
      = x.jobs.ready ++ if x.jobs.accepting = true then [q] else [] := by
    rw [hstop, stop, ready_commit_post _ _ ?_, same.jobs]
    rw [same.queue]
    exact Queue.stop_of_callback hwait
  generalize x.step op = y at hl hclaim hposted ⊢
  have inTime : x.jobs.accepting = true → IsFifo y rest → x.jobs.ready.length < ran rest →
      y.turns q rest = [.served t (some k) .cancelled] := by
    intro hopen hfifo hran
    rcases (hl rest).callback hclaim with ⟨-, hmarks, -, -⟩ | hserved
    · exfalso
      -- the job came up, found the callback waiting, and served it after all
      obtain ⟨before, after, rfl, hcount⟩ := split_of_lt_ran hran
      have hmarks : y.marks q before ++ (((y.after before).mark? q .runJob).toList
          ++ ((y.after before).step .runJob).marks q after) = [] := by
        rw [← hmarks]
        exact (seen_append step (fun x op => x.mark? q op) y before (.runJob :: after)).symm
      obtain ⟨hnone, hmarks⟩ := List.append_eq_nil_iff.mp hmarks
      obtain ⟨hmark, -⟩ := List.append_eq_nil_iff.mp hmarks
      have hline := hfifo.of_append.ready
      rw [hposted, if_pos hopen, hcount, List.drop_left] at hline
      obtain ⟨jobs, hnext⟩ := next?_of_prefix hline
      rcases (hl before).callback hclaim with ⟨-, -, hdue, hwait⟩ | hserved
      · rw [(called_of_next? hnext hwait hdue).2] at hmark
        cases hmark
      · have hfading := (hl before).fading
        rw [hserved, hnone] at hfading
        cases hfading
    · exact hserved
  refine ⟨hposted, ?_, ?_, ?_, inTime⟩
  · rcases (hl rest).callback hclaim with ⟨hturns, -, -, hwait⟩ | hserved
    · exact .inl ⟨hturns, hwait⟩
    · exact .inr hserved
  · intro hturns jobs hnext
    rcases (hl rest).callback hclaim with ⟨-, -, hdue, hwait⟩ | hserved
    · exact (called_of_next? hnext hwait hdue).1
    · rw [hserved] at hturns
      cases hturns
  · intro hopen hfifo hturns
    have hran : ran rest ≤ x.jobs.ready.length := by
      by_contra hlt
      rw [inTime hopen hfifo (by omega)] at hturns
      cases hturns
    have hline := hfifo.ready
    rw [hposted, if_pos hopen, List.drop_append_of_le_length hran] at hline
    exact hline.subset (by simp)

/-! ### A future that waited -/

/-- What becomes of a future that waits on a queue when its last handle goes, from `x` to `y`.  The
calls until then are `h`. -/
structure CancelsFuture (x y : Exchange α κ ω) (q t : Nat) (id : Int) (h : List (Call ω))
    (rest : List (Op α κ ω)) : Prop where
  /-- The waker that is stored is woken, and no other. -/
  woken : ∃ o, (x.queue q).waiting = .future t o ∧ y.woken = x.woken ++ o.toList
  /-- Whoever polled last and found nothing has been woken since, once. -/
  heeded : ∀ earlier w later, h = earlier ++ .asked t w :: later →
    (∀ c ∈ later, ¬ c.Asks t) → later = [.woken t w]
  /-- As long as it has not resolved, its next poll is cancelled. -/
  ready : (y.after rest).pops.get? id = some ⟨q, some t⟩ →
    ∀ waker, ((y.after rest).pollPop id q t waker).1 = .delivered .cancelled

theorem cancelsFuture {rest : List (Op α κ ω)} {h : List (Call ω)} {t : Nat} {id : Int}
    (hx : IsValid x) (hi : Issued x) (hlost : x.losesHandles q op = true)
    (hpop : x.pops.get? id = some ⟨q, some t⟩) (hticket : (x.queue q).waiting.ticket? = some t)
    (hattended : Attended ((x.step op).queue q) h) (hl : Lingers (x.step op) q rest) :
    CancelsFuture x (x.step op) q t id h rest := by
  obtain ⟨hop, y, same, -, hstop⟩ := of_losesHandles hx hlost
  obtain ⟨o, hwait⟩ := Waiting.eq_future hticket fun k => hi.future id q t k hpop
  have hqueue : (x.step op).queue q = (x.queue q).stop.2 := by
    rw [queue_of_movesHandle hx q hop, if_pos hlost]
  obtain ⟨hnotice, htaken⟩ := Queue.stop_of_future hwait
  refine ⟨⟨o, hwait, ?_⟩, ?_, ?_⟩
  · rw [hstop, stop, woken_commit, same.woken, same.queue, hnotice]
    cases o <;> rfl
  · intro earlier w later hh hlast
    rw [hh, hqueue] at hattended
    cases hattended.heeds htaken hlast with
    | stored _ wait _ =>
      rw [htaken] at wait
      cases wait
    | woken _ once => exact once
  · intro hstored
    refine (hl.cancels ?_ hstored).2
    rw [hqueue, Queue.claim?_stop, hwait]
    rfl

/-! ### Along every run -/

/-- What the loss of the last handle of a queue comes to, from `x` to `y`, and after the operations
`rest`.  The calls until the loss are `h`. -/
structure Vanishes (x y : Exchange α κ ω) (q : Nat) (h : List (Call ω))
    (rest : List (Op α κ ω)) : Prop where
  gone : (y.after rest).isGone q = true
  empty : ((y.after rest).queue q).values = []
  /-- Nothing is pushed, no stop follows, and no value is given: all that is given is one
  cancellation. -/
  marks : y.marks q rest = [] ∨ ∃ t, y.marks q rest = [.gave t .cancelled]
  /-- Nobody waits but who waited before. -/
  waits : ∀ t, ((y.after rest).queue q).waiting.ticket? = some t →
    (x.queue q).waiting.ticket? = some t
  future : ∀ id t, x.pops.get? id = some ⟨q, some t⟩ →
    (x.queue q).waiting.ticket? = some t → CancelsFuture x y q t id h rest
  callback : ∀ t k, (x.queue q).waiting = .callback t k → CancelsCallback x y q t k rest

theorem vanishes {h : List (Call ω)} (hx : IsValid x) (hi : Issued x)
    (hlost : x.losesHandles q op = true) (hattended : Attended ((x.step op).queue q) h)
    (rest : List (Op α κ ω)) : Vanishes x (x.step op) q h rest := by
  obtain ⟨hop, -⟩ := of_losesHandles hx hlost
  have hqueue : (x.step op).queue q = (x.queue q).stop.2 := by
    rw [queue_of_movesHandle hx q hop, if_pos hlost]
  have hdue : ((x.step op).queue q).due = [.cancelled] := by
    rw [hqueue, Queue.due_stop]
  have hgone : (x.step op).isGone q = true := by
    rw [isGone_step hx, hlost, Bool.or_true]
  have hl := lingers (hx.step op) (hi.step hx op) hgone hdue
  have hfading := (hl rest).fading
  refine ⟨(hl rest).gone, hfading.values, hfading.marks, ?_, ?_, ?_⟩
  · intro t hticket
    have hheld := hfading.ticket hticket
    rwa [hqueue, Queue.claim?_stop, Waiting.map_fst_claim?] at hheld
  · intro id t hpop hticket
    exact cancelsFuture hx hi hlost hpop hticket hattended (hl rest)
  · intro t k hwait
    exact cancelsCallback hx hlost hwait hl

/--
**No consumer is left hanging by a queue that vanished.**

After any operations, storing and dropping handles stops a queue if it takes its last handle and
does nothing to it otherwise.  That happens once if the queue has no handle now, and never if it has
one.  From then on the queue is empty and gives one cancellation at most: to the future that waits,
whose waker is woken by the loss, or to the callback that waits, for which a job is posted.
-/
theorem vanishing_of_run (ops : List (Op α κ ω)) (q : Nat) :
    (∀ op, op.movesHandle = true → ((after {} ops).step op).queue q
      = if (after {} ops).losesHandles q op = true then ((after {} ops).queue q).stop.2
        else (after {} ops).queue q) ∧
    (losses {} q ops).length = ((after {} ops).isGone q).toNat ∧
    ∀ before op rest, ops = before ++ op :: rest →
    (after {} before).losesHandles q op = true →
      Vanishes (after {} before) ((after {} before).step op) q
        (callsOn {} q (before ++ [op])) rest := by
  refine ⟨?_, ?_, ?_⟩
  · obtain ⟨hx, -⟩ := attended_after ops
    intro op hop
    exact queue_of_movesHandle hx q hop
  · exact length_losses q ops
  · intro before op rest _ hlost
    obtain ⟨hx, hi, -⟩ := attended_after before
    obtain ⟨-, -, -, hattended⟩ := attended_after (before ++ [op])
    have hattended := hattended q
    rw [after_append] at hattended
    exact vanishes hx hi hlost hattended rest

/-- A value was announced to a callback and a handle was cloned; the last of the two handles to go
is replaced by that of a new queue. -/
example : ({} : Exchange Nat Char Unit).losses 0
    [.create 0, .asyncPop 0 'k', .push 0 7, .clone 0 1, .drop 0, .create 1, .drop 1]
      = [.create 1] ∧
    ({} : Exchange Nat Char Unit).turns 0
      [.create 0, .asyncPop 0 'k', .push 0 7, .clone 0 1, .drop 0, .create 1, .runJob, .runJob]
        = [.began 0 (some 'k'), .served 0 (some 'k') .cancelled] := ⟨rfl, rfl⟩

end Exchange

end Dialogue.Handoff
