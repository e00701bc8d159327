/-
The schedule of a deadline.

A watcher computes every pause from the clock, so its looks obey two rules, and these are all that
is needed of a run.  What is left at a look is what the clock says; and between a look and the next
lies at least a pause, of a tick or of all that was left.  `Paced` states them, and `Stands` adds
where the watcher is: it pauses after its last look, or it left after a look that found nothing, or
it was told that the session is over.

The rest is arithmetic on the times left.  From one look to the next they fall by at least the
longest pause, unless they fall to nothing, so only so many looks find time left, and the watcher
leaves after one that does not.  On time they fall by exactly that much.
-/
import Dialogue.Proofs.Countdown.Run
import Mathlib.Algebra.Order.Floor.Div

namespace Dialogue.Countdown

/-! ### A deadline by itself -/

namespace Deadline

/-- The longest pause: a tick, or without one the whole budget. -/
def period (d : Deadline) : Nat :=
  if d.tick = 0 then d.budget else d.tick

/-- How many pauses a watch takes if each ends on time.  No watch takes more. -/
def pauseCount (d : Deadline) : Nat :=
  if d.budget = 0 then 0 else if d.tick = 0 then 1 else d.budget ⌈/⌉ d.tick

variable {d : Deadline} {left : Nat}

/-- As many pauses of full length as begin before the time is spent. -/
theorem lt_pauseCount_iff {i : Nat} : i < d.pauseCount ↔ i * d.period < d.budget := by
  unfold pauseCount period
  by_cases hb : d.budget = 0
  · simp [hb]
  by_cases ht : d.tick = 0
  · simp only [hb, ht, if_true, if_false]
    constructor
    · intro hi
      have hzero : i = 0 := by omega
      rw [hzero]
      omega
    · intro hi
      by_contra hone
      have hle : 1 * d.budget ≤ i * d.budget := Nat.mul_le_mul_right _ (by omega)
      omega
  · simp only [hb, ht, if_false]
    rw [← Nat.not_le, ceilDiv_le_iff_le_mul (Nat.pos_of_ne_zero ht), Nat.not_le, Nat.mul_comm]

theorem order?_eq (d : Deadline) (left : Nat) :
    d.order? left = if left = 0 then some (.stop .timedOut)
      else if d.tick = 0 then none else some (.notice left) := by
  unfold order? round
  by_cases hl : left = 0
  · simp [hl]
  · by_cases ht : d.tick = 0 <;> simp [hl, ht]

theorem pause?_eq (h : left ≤ d.budget) :
    d.pause? left = if left = 0 then none else some (min left d.period) := by
  unfold pause? round period
  by_cases hl : left = 0
  · simp [hl]
  · by_cases ht : d.tick = 0 <;> simp [hl, ht, h]

theorem left_le {since now : Nat} (h : since ≤ now) : d.expires since - now ≤ d.budget := by
  unfold expires
  omega

theorem next_eq {since now : Nat} (h : since ≤ now) :
    d.next since now =
      if d.expires since - now = 0 then .leaving true (now - since) (now + 1)
      else .watching since (d.expires since) (now + min (d.expires since - now) d.period) := by
  rw [next, pause?_eq (left_le h)]
  by_cases hl : d.expires since - now = 0
  · rw [if_pos hl, if_pos hl]
  · rw [if_neg hl, if_neg hl]

end Deadline

/-! ### The looks of a watch -/

/-- Looks of a watch that counts from a reading of the clock. -/
structure Paced (d : Deadline) (since : Nat) (looks : List Look) : Prop where
  /-- A look finds what the clock says. -/
  exact : ∀ l ∈ looks, since ≤ l.time ∧ l.left = d.expires since - l.time
  /-- After a look that finds time left, and after no other, there is a pause and another look. -/
  apart : looks.Pairwise fun a b => a.left ≠ 0 ∧ a.time + min a.left d.period ≤ b.time

namespace Paced

variable {d : Deadline} {since : Nat} {looks : List Look} {l : Look}

theorem first {now : Nat} (h : since ≤ now) : Paced d since [⟨now, d.expires since - now⟩] :=
  ⟨by simpa using h, List.pairwise_singleton _ _⟩

theorem concat (h : Paced d since (looks ++ [l])) (left : l.left ≠ 0) {now : Nat}
    (due : l.time + min l.left d.period ≤ now) :
    Paced d since ((looks ++ [l]) ++ [⟨now, d.expires since - now⟩]) := by
  have hlast := h.exact l (by simp)
  refine ⟨fun x hx => ?_, List.pairwise_append.mpr
    ⟨h.apart, List.pairwise_singleton _ _, ?_⟩⟩
  · rcases List.mem_append.mp hx with hx | hx
    · exact h.exact x hx
    · rw [List.mem_singleton.mp hx]
      exact ⟨by dsimp only; omega, rfl⟩
  · intro a ha b hb
    rw [List.mem_singleton.mp hb]
    rcases List.mem_append.mp ha with ha | ha
    · obtain ⟨hleft, hbefore⟩ := (List.pairwise_append.mp h.apart).2.2 a ha l (by simp)
      exact ⟨hleft, by dsimp only; omega⟩
    · rw [List.mem_singleton.mp ha]
      exact ⟨left, due⟩

/-- Only the last look can find nothing. -/
theorem left_ne_zero (h : Paced d since (looks ++ [l])) : ∀ x ∈ looks, x.left ≠ 0 :=
  fun x hx => ((List.pairwise_append.mp h.apart).2.2 x hx l (by simp)).1

/-- What is left falls by at least a full pause from a look to every later one that finds any. -/
theorem falls (h : Paced d since looks) :
    looks.Pairwise fun a b => b.left ≠ 0 → b.left + d.period ≤ a.left := by
  refine h.apart.imp_of_mem fun {a b} ha hb ⟨hleft, hdue⟩ hb0 => ?_
  obtain ⟨-, hxa⟩ := h.exact a ha
  obtain ⟨-, hxb⟩ := h.exact b hb
  omega

end Paced

/-! ### Counting the pauses -/

/-- Numbers that fall by steps take their first number to fall. -/
theorem length_mul_lt {p x : Nat} {xs : List Nat}
    (falls : (x :: xs).Pairwise fun a b => b + p ≤ a) (pos : ∀ y ∈ x :: xs, 0 < y) :
    xs.length * p < x := by
  induction xs generalizing x with
  | nil => simpa using pos
  | cons y ys ih =>
    obtain ⟨hfirst, hrest⟩ := List.pairwise_cons.mp falls
    have hy := ih hrest fun z hz => pos z (List.mem_cons_of_mem _ hz)
    have hstep := hfirst y List.mem_cons_self
    rw [List.length_cons, Nat.succ_mul]
    omega

namespace Paced

variable {d : Deadline} {since : Nat} {looks : List Look}

/-- No more looks find time left than there are pauses on time. -/
theorem length_le (h : Paced d since looks) (left : ∀ l ∈ looks, l.left ≠ 0) :
    looks.length ≤ d.pauseCount := by
  cases looks with
  | nil => exact Nat.zero_le _
  | cons x xs =>
    have hfalls : ((x :: xs).map Look.left).Pairwise fun a b => b + d.period ≤ a :=
      List.pairwise_map.mpr (h.falls.imp_of_mem fun {a b} _ hb hab => hab (left b hb))
    have hpos : ∀ y ∈ (x :: xs).map Look.left, 0 < y := by
      intro y hy
      obtain ⟨l, hl, rfl⟩ := List.mem_map.mp hy
      exact Nat.pos_of_ne_zero (left l hl)
    have hlt := length_mul_lt hfalls hpos
    obtain ⟨hsince, hexact⟩ := h.exact x List.mem_cons_self
    have hle : x.left ≤ d.budget := hexact ▸ Deadline.left_le hsince
    rw [List.length_map] at hlt
    exact Deadline.lt_pauseCount_iff.mpr (Nat.lt_of_lt_of_le hlt hle)

end Paced

/-! ### Where the watcher is -/

/-- Where a watcher is after its looks, and the reading of the clock from which it counts. -/
inductive Stands (d : Deadline) : Option Nat → Watcher → List Look → Prop
  | waiting {start : Nat} : Stands d none (.waiting start) []
  /-- It pauses after its last look. -/
  | watching {since : Nat} {looks : List Look} {l : Look} (paced : Paced d since (looks ++ [l]))
      (left : l.left ≠ 0) :
      Stands d (some since) (.watching since (d.expires since) (l.time + min l.left d.period))
        (looks ++ [l])
  /-- Its last look found nothing left. -/
  | stopped {since finish : Nat} {looks : List Look} {l : Look}
      (paced : Paced d since (looks ++ [l])) (left : l.left = 0) :
      Stands d (some since) (.leaving true (l.time - since) finish) (looks ++ [l])
  /-- It was told in a pause that the session is over. -/
  | told {since elapsed finish : Nat} {looks : List Look} {l : Look}
      (paced : Paced d since (looks ++ [l])) (left : l.left ≠ 0) :
      Stands d (some since) (.leaving false elapsed finish) (looks ++ [l])

namespace Stands

variable {d : Deadline} {since : Nat} {looks : List Look} {l : Look}

/-- A look leads on from where the looks before it led. -/
theorem of_paced {now : Nat}
    (h : Paced d since (looks ++ [⟨now, d.expires since - now⟩])) :
    Stands d (some since) (d.next since now) (looks ++ [⟨now, d.expires since - now⟩]) := by
  have hsince : since ≤ now := (h.exact _ (List.mem_append_right _ List.mem_cons_self)).1
  rw [Deadline.next_eq hsince]
  split
  · next hl => exact .stopped (l := ⟨now, _⟩) h hl
  · next hl => exact .watching (l := ⟨now, _⟩) h hl

end Stands

namespace Scenario

variable {bound : Nat} {plan : Plan} {s : Scenario}

/-- A move takes the watcher from where it stands to where it stands next. -/
theorem stands_move {began : Option Nat} {looks : List Look}
    (h : Stands plan.deadline began s.watcher looks) (m : Move) :
    Stands plan.deadline (began.or (s.begins? m)) (s.move bound plan m).watcher
      (looks ++ (s.look? plan m).toList) := by
  have hb := befalls bound plan s m
  generalize s.move bound plan m = t at hb ⊢
  cases hb with
  | stays quiet now watcher =>
    rw [begins?_of_quiet quiet, watcher, look?, quiet]
    simpa using h
  | looks hl =>
    rw [look_eq, look?, hl]
    obtain ⟨-, ⟨start, hw⟩, hsince, hbegins⟩ |
      ⟨-, ⟨expires, wake, hw, hdue⟩, hbegins⟩ := looks?_cases hl
    · rw [hbegins]
      rw [hw] at h
      cases h with
      | waiting => exact Stands.of_paced (Paced.first hsince)
    · rw [hbegins, Option.or_none]
      rw [hw] at h
      cases h with
      | watching paced left => exact .of_paced (paced.concat left hdue)
  | leaves watching hover =>
    rw [show s.begins? .heed = none from rfl, Option.or_none]
    rw [watching] at h
    cases h with
    | watching paced left => simpa [look?, looks?, begins?, wakes?] using Stands.told paced left

/-- A watch that has not begun stands as it should after every run. -/
theorem stands_after (bound : Nat) (plan : Plan) {start : Nat} (fresh : s.watcher = .waiting start)
    (ms : List Move) :
    Stands plan.deadline (s.began bound plan ms) (s.after bound plan ms).watcher
      (s.looks bound plan ms) := by
  refine foldl_induction (P := fun ms t => Stands plan.deadline (s.began bound plan ms) t.watcher
    (s.looks bound plan ms)) (move bound plan) (by rw [fresh]; exact .waiting) ?_ ms
  intro ms m h
  rw [← after] at h ⊢
  rw [began_concat, looks_concat]
  exact stands_move h m

end Scenario

/-! ### What the looks come to -/

/-- The looks that find time left. -/
def pausing (looks : List Look) : List Look :=
  looks.filter fun l => l.left ≠ 0

theorem left_of_pausing {looks : List Look} {l : Look} (h : l ∈ pausing looks) :
    l.left ≠ 0 := by
  simpa using (List.mem_filter.mp h).2

theorem pausing_eq_self {looks : List Look} (h : ∀ l ∈ looks, l.left ≠ 0) :
    pausing looks = looks :=
  List.filter_eq_self.mpr fun l hl => by simpa using h l hl

theorem Paced.pausing {d : Deadline} {since : Nat} {looks : List Look} (h : Paced d since looks) :
    Paced d since (pausing looks) :=
  ⟨fun l hl => h.exact l (List.mem_filter.mp hl).1, h.apart.filter _⟩

namespace Scenario

section

variable (bound : Nat) (plan : Plan) (s : Scenario) (ms : List Move)

/-- Every look that finds time left is a notice, if notice is given at all. -/
theorem notified_eq : s.notified bound plan ms =
    if plan.deadline.tick = 0 then []
    else (pausing (s.looks bound plan ms)).map fun l => (l.time, l.left) := by
  rw [notified, orders]
  induction s.looks bound plan ms with
  | nil => simp [pausing]
  | cons l looks ih =>
    rw [List.filterMap_cons, Deadline.order?_eq]
    by_cases hl : l.left = 0
    · simpa [hl, pausing, Order.reason?, Order.left?] using ih
    · by_cases ht : plan.deadline.tick = 0
      · simpa [hl, ht] using ih
      · simpa [hl, ht, pausing, Order.left?] using ih

/-- Every look that finds nothing left is a stop. -/
theorem stops_eq : s.stops bound plan ms =
    ((s.looks bound plan ms).filter fun l => l.left = 0).map fun l => (l.time, .timedOut) := by
  rw [stops, orders]
  induction s.looks bound plan ms with
  | nil => rfl
  | cons l looks ih =>
    rw [List.filterMap_cons, Deadline.order?_eq]
    by_cases hl : l.left = 0
    · simpa [hl, Order.reason?] using ih
    · by_cases ht : plan.deadline.tick = 0
      · simpa [hl, ht] using ih
      · simpa [hl, ht, Order.reason?] using ih

end

end Scenario

/-- Every look that finds time left is a pause. -/
theorem Paced.length_pauses {d : Deadline} {since : Nat} {looks : List Look}
    (h : Paced d since looks) :
    (looks.filterMap fun l => d.pause? l.left).length = (Countdown.pausing looks).length := by
  have hle : ∀ l ∈ looks, l.left ≤ d.budget := fun l hl => by
    obtain ⟨hsince, hexact⟩ := h.exact l hl
    exact hexact ▸ Deadline.left_le hsince
  clear h
  induction looks with
  | nil => rfl
  | cons l looks ih =>
    have hrest := ih fun x hx => hle x (List.mem_cons_of_mem _ hx)
    rw [List.filterMap_cons, Deadline.pause?_eq (hle l List.mem_cons_self)]
    by_cases hl : l.left = 0
    · simpa [hl, Countdown.pausing] using hrest
    · simpa [hl, Countdown.pausing] using hrest

namespace Stands

variable {d : Deadline} {since : Nat} {w : Watcher} {looks : List Look}

theorem paced (h : Stands d (some since) w looks) : Paced d since looks := by
  cases h with
  | watching paced => exact paced
  | stopped paced => exact paced
  | told paced => exact paced

/-- All looks find time left, or all but the last, after which the watcher left. -/
theorem pausing_cases (h : Stands d (some since) w looks) :
    (looks = pausing looks ∧ looks.filter (fun l => l.left = 0) = [] ∧
      ∀ elapsed finish, w ≠ .leaving true elapsed finish) ∨
    (∃ l, l.left = 0 ∧ looks = pausing looks ++ [l] ∧
      looks.filter (fun l => l.left = 0) = [l] ∧
      ∃ finish, w = .leaving true (l.time - since) finish) := by
  have all : ∀ {looks : List Look} {l : Look}, Paced d since (looks ++ [l]) → l.left ≠ 0 →
      looks ++ [l] = pausing (looks ++ [l]) ∧
          (looks ++ [l]).filter (fun l => l.left = 0) = [] := by
    intro looks l paced left
    have hall : ∀ x ∈ looks ++ [l], x.left ≠ 0 := by
      intro x hx
      rcases List.mem_append.mp hx with hx | hx
      · exact paced.left_ne_zero x hx
      · rw [List.mem_singleton.mp hx]
        exact left
    exact ⟨(pausing_eq_self hall).symm,
      List.filter_eq_nil_iff.mpr fun x hx => by simpa using hall x hx⟩
  cases h with
  | watching paced left =>
    exact .inl ⟨(all paced left).1, (all paced left).2, fun _ _ h => by cases h⟩
  | told paced left =>
    exact .inl ⟨(all paced left).1, (all paced left).2, fun _ _ h => by cases h⟩
  | @stopped _ finish looks l paced left =>
    refine .inr ⟨l, left, ?_, ?_, finish, rfl⟩
    · rw [pausing, List.filter_append, ← pausing, pausing_eq_self paced.left_ne_zero]
      simp [left]
    · rw [List.filter_append, List.filter_eq_nil_iff.mpr fun x hx => by
        simpa using paced.left_ne_zero x hx]
      simp [left]

end Stands

/-! ### Never too early -/

/-- What a watch that counts from a reading of the clock has done. -/
structure Timely (d : Deadline) (since : Nat) (pauses : List Nat) (notified : List (Nat × Nat))
    (stops : List (Nat × CloseReason)) (w : Watcher) : Prop where
  pauses_le : pauses.length ≤ d.pauseCount
  /-- One notice a pause, or none at all. -/
  length_notified : notified.length = if d.tick = 0 then 0 else pauses.length
  /-- A notice says exactly what is left then, and something is. -/
  exact : ∀ n ∈ notified, since ≤ n.1 ∧ 0 < n.2 ∧ n.1 + n.2 = since + d.budget
  falls : notified.Pairwise fun a b => b.2 + d.tick ≤ a.2
  /-- A watcher that answers that the time ran out has stopped the session once, and not before. -/
  stopped : ∀ elapsed finish, w = .leaving true elapsed finish → ∃ time,
    stops = [(time, .timedOut)] ∧ since + d.budget ≤ time ∧ elapsed = time - since
  unstopped : (∀ elapsed finish, w ≠ .leaving true elapsed finish) → stops = []

namespace Scenario

variable {bound : Nat} {plan : Plan} {s : Scenario}

/-- The pauses are the looks that find time left. -/
theorem length_pauses_after {start : Nat} (fresh : s.watcher = .waiting start) {ms : List Move}
    {since : Nat} (began : s.began bound plan ms = some since) :
    (s.pauses bound plan ms).length = (pausing (s.looks bound plan ms)).length := by
  have hstands := stands_after bound plan fresh ms
  rw [began] at hstands
  exact hstands.paced.length_pauses

theorem timely_after {start : Nat} (fresh : s.watcher = .waiting start) {ms : List Move}
    {since : Nat} (began : s.began bound plan ms = some since) :
    Timely plan.deadline since (s.pauses bound plan ms) (s.notified bound plan ms)
      (s.stops bound plan ms) (s.after bound plan ms).watcher := by
  have hstands := stands_after bound plan fresh ms
  rw [began] at hstands
  have hpaced := hstands.paced.pausing
  have hlength := length_pauses_after fresh began
  refine ⟨?_, ?_, ?_, ?_, ?_, ?_⟩
  · rw [hlength]
    exact hpaced.length_le fun l => left_of_pausing
  · rw [notified_eq, hlength]
    split <;> simp
  · intro n hn
    rw [notified_eq] at hn
    split at hn
    · cases hn
    · obtain ⟨l, hl, rfl⟩ := List.mem_map.mp hn
      obtain ⟨hsince, hexact⟩ := hpaced.exact l hl
      have hleft := left_of_pausing hl
      unfold Deadline.expires at hexact
      exact ⟨hsince, Nat.pos_of_ne_zero hleft, by dsimp only; omega⟩
  · rw [notified_eq]
    split
    · exact .nil
    · next ht =>
      refine List.pairwise_map.mpr (hpaced.falls.imp_of_mem fun {a b} _ hb hab => ?_)
      have hfall := hab (left_of_pausing hb)
      rwa [Deadline.period, if_neg ht] at hfall
  · intro elapsed finish hw
    rw [stops_eq]
    obtain ⟨-, -, hnot⟩ | ⟨l, hl, hlooks, hspent, finish', hw'⟩ := hstands.pausing_cases
    · exact absurd hw (hnot elapsed finish)
    · obtain ⟨hsince, hexact⟩ := hstands.paced.exact l (by rw [hlooks]; simp)
      rw [hw'] at hw
      cases hw
      unfold Deadline.expires at hexact
      exact ⟨l.time, by rw [hspent]; rfl, by omega, rfl⟩
  · intro hw
    rw [stops_eq]
    obtain ⟨-, hspent, -⟩ | ⟨l, -, -, -, finish, hw'⟩ := hstands.pausing_cases
    · rw [hspent]
      rfl
    · exact absurd hw' (hw _ _)

end Scenario

/-! ### On time -/

/-- The look that is taken after some pauses if each of them ended on time. -/
def Deadline.slot (d : Deadline) (since i : Nat) : Look :=
  ⟨since + min (i * d.period) d.budget, d.budget - i * d.period⟩

theorem Deadline.left_slot_ne_zero_iff {d : Deadline} {since i : Nat} :
    (d.slot since i).left ≠ 0 ↔ i < d.pauseCount := by
  rw [lt_pauseCount_iff]
  show d.budget - i * d.period ≠ 0 ↔ _
  omega

/-- A pause on time leads from one slot to the next. -/
theorem Deadline.slot_succ (d : Deadline) (since i : Nat) (left : (d.slot since i).left ≠ 0) :
    let now := (d.slot since i).time + min (d.slot since i).left d.period
    (⟨now, d.expires since - now⟩ : Look) = d.slot since (i + 1) := by
  have hleft : i * d.period < d.budget := lt_pauseCount_iff.mp (left_slot_ne_zero_iff.mp left)
  have hstep : (i + 1) * d.period = i * d.period + d.period := Nat.succ_mul _ _
  simp only [slot, expires, Look.mk.injEq]
  omega

/-- What a watch has done whose looks were all taken on time. -/
structure OnTime (d : Deadline) (since : Nat) (pauses : List Nat) (notified : List (Nat × Nat))
    (stops : List (Nat × CloseReason)) (w : Watcher) : Prop where
  notified : notified = if d.tick = 0 then []
    else (List.range pauses.length).map fun i => (since + i * d.tick, d.budget - i * d.tick)
  stopped : ∀ elapsed finish, w = .leaving true elapsed finish →
    pauses.length = d.pauseCount ∧ stops = [(since + d.budget, .timedOut)]

namespace Scenario

/-- How late the look is that is taken in a move. -/
def delay? (s : Scenario) (m : Move) : Option Nat :=
  match m, s.watcher with
  | .begin since, .waiting _ => if since ≤ s.now then some (s.now - since) else none
  | .timer, .watching _ _ wake => if wake ≤ s.now then some (s.now - wake) else none
  | _, _ => none

/-- No look of a run is late. -/
def Punctual (bound : Nat) (plan : Plan) (s : Scenario) (ms : List Move) : Prop :=
  ∀ delay ∈ seen (move bound plan) delay? s ms, delay = 0

variable {bound : Nat} {plan : Plan} {s : Scenario}

theorem punctual_concat {ms : List Move} {m : Move} (h : s.Punctual bound plan (ms ++ [m])) :
    s.Punctual bound plan ms ∧ ∀ delay ∈ (s.after bound plan ms).delay? m, delay = 0 := by
  rw [Punctual, seen_concat, ← after] at h
  exact ⟨fun x hx => h x (List.mem_append_left _ hx),
    fun x hx => h x (List.mem_append_right _ (by simpa using hx))⟩

/-- Looks that are on time are taken at the slots, in order. -/
theorem looks_of_punctual {start : Nat} (fresh : s.watcher = .waiting start) {ms : List Move}
    {since : Nat} (punctual : s.Punctual bound plan ms)
    (began : s.began bound plan ms = some since) : s.looks bound plan ms
      = (List.range (s.looks bound plan ms).length).map (plan.deadline.slot since) := by
  induction ms using List.reverseRecOn with
  | nil => cases began
  | append_singleton ms m ih =>
    obtain ⟨hbefore, hdelay⟩ := punctual_concat punctual
    have hstands := stands_after bound plan fresh ms
    rw [began_concat] at began
    rw [looks_concat, look?]
    cases hl : (s.after bound plan ms).looks? m with
    | none =>
      rw [begins?_of_quiet hl, Option.or_none] at began
      simpa using ih hbefore began
    | some t =>
      obtain ⟨rfl, ⟨start', hw⟩, hle, hbegins⟩ |
        ⟨rfl, ⟨expires, wake, hw, hdue⟩, hbegins⟩ := looks?_cases hl
      · -- The first look is on time if the clock still shows the first reading.
        rw [hw] at hstands
        generalize s.looks bound plan ms = looks at hstands
        generalize s.began bound plan ms = before at hstands began
        cases hstands with
        | waiting =>
          rw [hbegins, Option.none_or, Option.some.injEq] at began
          subst began
          have hnow := hdelay ((s.after bound plan ms).now - t) (by simp [delay?, hw, hle])
          have hsame : (s.after bound plan ms).now = t := by omega
          simp [Deadline.slot, Deadline.expires, hsame]
      · rw [hbegins, Option.or_none] at began
        have hslots := ih hbefore began
        rw [began, hw] at hstands
        generalize s.looks bound plan ms = looks at hstands hslots
        cases hstands with
        | @watching _ looks l paced left =>
          have hnow := hdelay
            ((s.after bound plan ms).now - (l.time + min l.left plan.deadline.period))
            (by simp [delay?, hw, hdue])
          have hwake : (s.after bound plan ms).now = l.time + min l.left plan.deadline.period := by
            omega
          have hlast : l = plan.deadline.slot since looks.length := by
            rw [List.length_append, List.length_singleton, List.range_succ, List.map_append]
              at hslots
            exact List.singleton_injective (List.append_inj_right' hslots (by simp))
          have hnext := plan.deadline.slot_succ since looks.length (hlast ▸ left)
          rw [← hlast, ← hwake] at hnext
          rw [Option.map_some, Option.toList_some, hnext, List.length_append, List.length_singleton,
            List.range_succ, List.map_append, ← hslots, List.length_append, List.length_singleton]
          rfl

/-- The looks that find time left come first, so they are taken at the first slots. -/
theorem pausing_of_punctual {start : Nat} (fresh : s.watcher = .waiting start) {ms : List Move}
    {since : Nat} (punctual : s.Punctual bound plan ms)
    (began : s.began bound plan ms = some since) : pausing (s.looks bound plan ms)
      = (List.range (s.pauses bound plan ms).length).map (plan.deadline.slot since) := by
  have hslots := looks_of_punctual fresh punctual began
  have hstands := stands_after bound plan fresh ms
  rw [began] at hstands
  rw [length_pauses_after fresh began]
  obtain ⟨hall, -, -⟩ | ⟨l, -, hlooks, -, -⟩ := hstands.pausing_cases
  · rw [← hall]
    exact hslots
  · have hcount : (s.looks bound plan ms).length
        = (pausing (s.looks bound plan ms)).length + 1 := by
      conv_lhs => rw [hlooks, List.length_append, List.length_singleton]
    rw [hcount, List.range_succ, List.map_append] at hslots
    exact List.append_inj_left' (hlooks.symm.trans hslots) (by simp)

/-- The look that finds nothing left comes after all pauses, at the end of the budget. -/
theorem spent_of_punctual {start : Nat} (fresh : s.watcher = .waiting start) {ms : List Move}
    {since : Nat} (punctual : s.Punctual bound plan ms) (began : s.began bound plan ms = some since)
    {l : Look} (hlooks : s.looks bound plan ms = pausing (s.looks bound plan ms) ++ [l])
    (spent : l.left = 0) :
    (s.pauses bound plan ms).length = plan.deadline.pauseCount ∧
      l.time = since + plan.deadline.budget := by
  have hslots := looks_of_punctual fresh punctual began
  have hcount : (s.looks bound plan ms).length = (s.pauses bound plan ms).length + 1 := by
    rw [length_pauses_after fresh began]
    conv_lhs => rw [hlooks, List.length_append, List.length_singleton]
  rw [hcount, List.range_succ, List.map_append] at hslots
  have hlast : l = plan.deadline.slot since (s.pauses bound plan ms).length :=
    List.singleton_injective (List.append_inj_right' (hlooks.symm.trans hslots) (by simp))
  have hnot : ¬ (s.pauses bound plan ms).length < plan.deadline.pauseCount := fun hlt =>
    Deadline.left_slot_ne_zero_iff.mpr hlt (hlast ▸ spent)
  have hle : (s.pauses bound plan ms).length ≤ plan.deadline.pauseCount :=
    (timely_after fresh began).pauses_le
  have hend : ¬ (s.pauses bound plan ms).length * plan.deadline.period < plan.deadline.budget :=
    fun hlt => hnot (Deadline.lt_pauseCount_iff.mpr hlt)
  refine ⟨by omega, ?_⟩
  rw [hlast]
  simp only [Deadline.slot]
  omega

theorem onTime_after {start : Nat} (fresh : s.watcher = .waiting start) {ms : List Move}
    {since : Nat} (punctual : s.Punctual bound plan ms)
    (began : s.began bound plan ms = some since) :
    OnTime plan.deadline since (s.pauses bound plan ms) (s.notified bound plan ms)
      (s.stops bound plan ms) (s.after bound plan ms).watcher := by
  have hfirst := pausing_of_punctual fresh punctual began
  refine ⟨?_, fun elapsed finish hw => ?_⟩
  · rw [notified_eq]
    split
    · rfl
    · next ht =>
      rw [hfirst, List.map_map]
      refine List.map_congr_left fun i hi => ?_
      have hmem : plan.deadline.slot since i ∈ pausing (s.looks bound plan ms) := by
        rw [hfirst]
        exact List.mem_map_of_mem hi
      have hlt := Deadline.lt_pauseCount_iff.mp
        (Deadline.left_slot_ne_zero_iff.mp (left_of_pausing hmem))
      simp only [Deadline.period, ht, if_false] at hlt
      simp only [Function.comp_apply, Deadline.slot, Deadline.period, ht, if_false,
        Nat.min_eq_left (Nat.le_of_lt hlt)]
  · have hstands := stands_after bound plan fresh ms
    rw [began] at hstands
    obtain ⟨-, -, hnot⟩ | ⟨l, hl, hlooks, hspent, -⟩ := hstands.pausing_cases
    · exact absurd hw (hnot elapsed finish)
    obtain ⟨hcount, htime⟩ := spent_of_punctual fresh punctual began hlooks hl
    refine ⟨hcount, ?_⟩
    rw [stops_eq, hspent, List.map_singleton, htime]

/-! ### Not for ever -/

section Endless

variable {moves : Nat → Move}

end Endless

/-! ### Every watch -/

/-- A scenario whose watch has not begun. -/
def ahead (session : Session) (now start : Nat) : Scenario where
  now := now
  session := session
  watcher := .waiting start
  timeline := []

end Scenario

end Dialogue.Countdown
