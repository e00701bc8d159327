/-
Every way a deadline can be watched.

In a scenario the clock jumps from timer to timer, so every pause ends on time, and the watcher
learns at once that the session is over.  A watcher in use has no such luck.  `Move` lists what can
happen next: others make something of the session, the clock goes on, the watch begins, a pause ends
however late, or the watcher learns that the session is over.  A run is a list of moves.  Nothing is
assumed of the session but that one that is over stays so; what holds in every run therefore holds
whatever is done to the session before the watch and during it.

Whatever the watcher does, it does when it looks at the clock: it gives notice of the time left, or
it stops the session.  `looks` and `orders` are the histories of the two, and `session_move` says
that the orders are all that a watcher does to the session.  A scenario is a run, with a clock that
is always on time.
-/
import Dialogue.Proofs.History
import Dialogue.Countdown.Scenario

namespace Dialogue.Countdown

open Dialogue.Session (Act Event)

/-! ### Looks and orders -/

/-- A look at the clock: when it was taken, and what was left then. -/
structure Look where
  time : Nat
  left : Nat
deriving DecidableEq, Repr

/-- What a watcher does to the session. -/
inductive Order
  /-- Notice is given of what is left, and the message for it is sent. -/
  | notice (left : Nat)
  | stop (reason : CloseReason)
deriving DecidableEq, Repr

def Order.left? : Order → Option Nat
  | notice left => some left
  | stop _ => none

def Order.reason? : Order → Option CloseReason
  | notice _ => none
  | stop reason => some reason

/-- What follows from a look. -/
def Deadline.order? (d : Deadline) (left : Nat) : Option Order :=
  match d.round left with
  | .expired => some (.stop .timedOut)
  | .pause true _ => some (.notice left)
  | .pause false _ => none

/-- How long the watcher pauses after a look. -/
def Deadline.pause? (d : Deadline) (left : Nat) : Option Nat :=
  match d.round left with
  | .expired => none
  | .pause _ length => some length

/-- Where a look at a time takes a watcher that has watched since another. -/
def Deadline.next (d : Deadline) (since now : Nat) : Watcher :=
  match d.pause? (d.expires since - now) with
  | none => .leaving true (now - since) (now + 1)
  | some length => .watching since (d.expires since) (now + length)

namespace Scenario

/-- Carries out an order. -/
def obey (bound : Nat) (plan : Plan) (s : Scenario) : Order → Scenario
  | .notice left => s.giveNotice bound plan left
  | .stop reason => s.perform bound [.stopWith reason]

/-! ### Moves -/

/-- What can happen next. -/
inductive Move
  /-- Others make something of the session, of what is due, or of the journal. -/
  | others (session : Session) (timeline : List (Nat × List Act)) (journal : List (Nat × Event))
  /-- The clock goes on. -/
  | pass (time : Nat)
  /-- The watch begins.  It counts from a first reading of the clock, which may have been a while
  ago when the watcher first looks how much is left. -/
  | begin (since : Nat)
  /-- The pause of the watcher ends, if it is due. -/
  | timer
  /-- The watcher learns whether the session is over. -/
  | heed

/-- The reading of the clock from which a watch counts that begins in a move. -/
def begins? (s : Scenario) (m : Move) : Option Nat :=
  match m, s.watcher with
  | .begin since, .waiting _ => if since ≤ s.now then some since else none
  | _, _ => none

/-- The reading of the clock from which a watch counts whose pause ends in a move. -/
def wakes? (s : Scenario) (m : Move) : Option Nat :=
  match m, s.watcher with
  | .timer, .watching since _ wake => if wake ≤ s.now then some since else none
  | _, _ => none

/-- The watcher looks at the clock, and has counted from this reading of it. -/
def looks? (s : Scenario) (m : Move) : Option Nat :=
  (s.begins? m).or (s.wakes? m)

/-- Makes a move.  A session that is over is not made to be open again. -/
def move (bound : Nat) (plan : Plan) (s : Scenario) (m : Move) : Scenario :=
  match m with
  | .others session timeline journal =>
    if s.session.closedSignal.isFired && !session.closedSignal.isFired then s
    else { s with session, timeline, journal }
  | .pass time => { s with now := s.now + time }
  | .begin _ | .timer =>
    (s.looks? m).elim s fun since => s.look bound plan since (plan.deadline.expires since)
  | .heed => s.heed

section

variable (bound : Nat) (plan : Plan) (s : Scenario)

/-- The scenario after moves. -/
def after (ms : List Move) : Scenario :=
  ms.foldl (move bound plan) s

/-- The look that is taken in a move. -/
def look? (m : Move) : Option Look :=
  (s.looks? m).map fun since => ⟨s.now, plan.deadline.expires since - s.now⟩

/-- What the watcher orders in a move. -/
def order? (m : Move) : Option Order :=
  (s.look? plan m).bind fun l => plan.deadline.order? l.left

/-- The reading of the clock from which the watch counts, if it has begun. -/
def began (ms : List Move) : Option Nat :=
  (seen (move bound plan) begins? s ms).head?

/-- The looks that are taken, in order. -/
def looks (ms : List Move) : List Look :=
  seen (move bound plan) (look? plan) s ms

/-- What the watcher orders, with the times, in order. -/
def orders (ms : List Move) : List (Nat × Order) :=
  (s.looks bound plan ms).filterMap fun l => (plan.deadline.order? l.left).map (l.time, ·)

/-- The pauses the watcher takes, with their lengths, in order. -/
def pauses (ms : List Move) : List Nat :=
  (s.looks bound plan ms).filterMap fun l => plan.deadline.pause? l.left

/-- What is left at each notice, with the times, in order. -/
def notified (ms : List Move) : List (Nat × Nat) :=
  (s.orders bound plan ms).filterMap fun o => o.2.left?.map (o.1, ·)

/-- The reasons with which the watcher stops the session, with the times, in order. -/
def stops (ms : List Move) : List (Nat × CloseReason) :=
  (s.orders bound plan ms).filterMap fun o => o.2.reason?.map (o.1, ·)

/-- The session is over for whoever waits for that. -/
def isOver : Bool := s.session.closedSignal.isFired

end

variable {bound : Nat} {plan : Plan} {s : Scenario}

@[simp] theorem after_nil : s.after bound plan [] = s := rfl

@[simp] theorem after_cons (m : Move) (ms : List Move) :
    s.after bound plan (m :: ms) = (s.move bound plan m).after bound plan ms := rfl

@[simp] theorem after_append (ms ns : List Move) :
    s.after bound plan (ms ++ ns) = (s.after bound plan ms).after bound plan ns := by
  simp [after]

theorem after_concat (ms : List Move) (m : Move) :
    s.after bound plan (ms ++ [m]) = (s.after bound plan ms).move bound plan m := by
  simp

theorem looks_concat (ms : List Move) (m : Move) :
    s.looks bound plan (ms ++ [m])
      = s.looks bound plan ms ++ ((s.after bound plan ms).look? plan m).toList :=
  seen_concat _ _ s ms m

theorem began_concat (ms : List Move) (m : Move) :
    s.began bound plan (ms ++ [m])
      = (s.began bound plan ms).or ((s.after bound plan ms).begins? m) := by
  rw [began, seen_concat, List.head?_append, ← began, ← after]
  congr 1
  cases (s.after bound plan ms).begins? m <;> rfl

/-! ### What a look does -/

theorem now_giveNotice (left : Nat) : (s.giveNotice bound plan left).now = s.now := by
  unfold giveNotice
  dsimp only
  split <;> rfl

theorem calls_giveNotice (left : Nat) :
    (s.giveNotice bound plan left).calls = left :: s.calls := by
  unfold giveNotice
  dsimp only
  split <;> rfl

/-- Of an order nothing remains but what it makes of the session, and a notice on the list. -/
theorem now_obey (o : Order) : (s.obey bound plan o).now = s.now := by
  cases o with
  | notice left => exact now_giveNotice left
  | stop reason => rfl

theorem calls_obey (o : Order) : (s.obey bound plan o).calls = o.left?.toList ++ s.calls := by
  cases o with
  | notice left => exact calls_giveNotice left
  | stop reason => rfl

/-- A look carries out the order that follows from it, and takes the watcher further. -/
theorem look_eq (since : Nat) :
    s.look bound plan since (plan.deadline.expires since)
      = { (plan.deadline.order? (plan.deadline.expires since - s.now)).elim s
        (s.obey bound plan) with
          watcher := plan.deadline.next since s.now } := by
  rw [look, Deadline.order?, Deadline.next, Deadline.pause?]
  cases plan.deadline.round (plan.deadline.expires since - s.now) with
  | expired => rfl
  | pause notice length =>
    cases notice with
    | false => rfl
    | true => simp only [if_true, Option.elim_some, obey, now_giveNotice]

/-- A look is the first one, or it ends a pause that is due. -/
theorem looks?_cases {m : Move} {since : Nat} (h : s.looks? m = some since) :
    (m = .begin since ∧ (∃ start, s.watcher = .waiting start) ∧ since ≤ s.now ∧
      s.begins? m = some since) ∨
    (m = .timer ∧ (∃ expires wake, s.watcher = .watching since expires wake ∧
      wake ≤ s.now) ∧ s.begins? m = none) := by
  cases m with
  | begin t =>
    cases hw : s.watcher with
    | waiting start =>
      simp only [looks?, begins?, wakes?, hw, Option.or_none, Option.ite_none_right_eq_some,
        Option.some.injEq] at h
      obtain ⟨hle, rfl⟩ := h
      exact .inl ⟨rfl, ⟨start, rfl⟩, hle, by simp [begins?, hw, hle]⟩
    | _ => simp [looks?, begins?, wakes?, hw] at h
  | timer =>
    cases hw : s.watcher with
    | watching t expires wake =>
      simp only [looks?, begins?, wakes?, hw, Option.none_or, Option.ite_none_right_eq_some,
        Option.some.injEq] at h
      obtain ⟨hle, rfl⟩ := h
      exact .inr ⟨rfl, ⟨expires, wake, rfl, hle⟩, rfl⟩
    | _ => simp [looks?, begins?, wakes?, hw] at h
  | _ => cases h

theorem begins?_of_quiet {m : Move} (h : s.looks? m = none) : s.begins? m = none := by
  rw [looks?, Option.or_eq_none_iff] at h
  exact h.1

/-- A move in which the watcher looks at the clock is that look. -/
theorem move_of_looks {m : Move} {since : Nat} (h : s.looks? m = some since) :
    s.move bound plan m = s.look bound plan since (plan.deadline.expires since) := by
  cases m with
  | begin t => rw [move, h]; rfl
  | timer => rw [move, h]; rfl
  | _ => cases h

/-- What happens in a move, as far as the watcher is concerned. -/
inductive Befalls (bound : Nat) (plan : Plan) (s : Scenario) : Move → Scenario → Prop
  /-- Others act, or the clock goes on. -/
  | stays {m : Move} {t : Scenario} (quiet : s.looks? m = none) (now : s.now ≤ t.now)
      (watcher : t.watcher = s.watcher) (calls : t.calls = s.calls)
      (isOver : s.isOver = true → t.isOver = true) : Befalls bound plan s m t
  | looks {m : Move} {since : Nat} (h : s.looks? m = some since) :
      Befalls bound plan s m (s.look bound plan since (plan.deadline.expires since))
  /-- The watcher learns that the session is over. -/
  | leaves {since expires wake : Nat} (watching : s.watcher = .watching since expires wake)
      (hover : s.isOver = true) :
      Befalls bound plan s .heed
        { s with watcher := .leaving false (s.now - since) (s.now + 1) }

/-- A watcher that does not learn that the session is over stays where it is. -/
theorem heed_cases (s : Scenario) :
    (∃ since expires wake, s.watcher = .watching since expires wake ∧ s.isOver = true ∧
      s.heed = { s with watcher := .leaving false (s.now - since) (s.now + 1) }) ∨
    (s.heed = s ∧ ∀ since expires wake, s.watcher = .watching since expires wake →
      s.isOver = false) := by
  cases hw : s.watcher with
  | watching since expires wake =>
    cases hf : s.isOver with
    | true =>
      refine .inl ⟨since, expires, wake, rfl, rfl, ?_⟩
      rw [isOver] at hf
      simp only [heed, hw, hf, if_true]
    | false =>
      refine .inr ⟨?_, fun _ _ _ _ => rfl⟩
      rw [isOver] at hf
      simp only [heed, hw, hf, Bool.false_eq_true, if_false]
  | _ => exact .inr ⟨by simp only [heed, hw], fun _ _ _ h => by cases h⟩

theorem befalls (bound : Nat) (plan : Plan) (s : Scenario) (m : Move) :
    Befalls bound plan s m (s.move bound plan m) := by
  cases hl : s.looks? m with
  | some since =>
    rw [move_of_looks hl]
    exact .looks hl
  | none =>
    cases m with
    | others session timeline journal =>
      rw [move]
      split
      · exact .stays hl (Nat.le_refl _) rfl rfl id
      · next hguard =>
        refine .stays hl (Nat.le_refl _) rfl rfl fun hover => ?_
        rw [isOver] at hover
        simpa [isOver, hover] using hguard
    | pass time => exact .stays hl (Nat.le_add_right _ _) rfl rfl id
    | begin since => rw [move, hl]; exact .stays hl (Nat.le_refl _) rfl rfl id
    | timer => rw [move, hl]; exact .stays hl (Nat.le_refl _) rfl rfl id
    | heed =>
      rw [move]
      obtain ⟨since, expires, wake, hw, hover, heq⟩ | ⟨heq, -⟩ := heed_cases s
      · rw [heq]
        exact .leaves hw hover
      · rw [heq]
        exact .stays hl (Nat.le_refl _) rfl rfl id

/-- An answer is final. -/
theorem watcher_move_of_leaving {timedOut : Bool} {elapsed finish : Nat}
    (h : s.watcher = .leaving timedOut elapsed finish) (m : Move) :
    (s.move bound plan m).watcher = .leaving timedOut elapsed finish := by
  have hb := befalls bound plan s m
  generalize s.move bound plan m = t at hb
  cases hb with
  | stays quiet now watcher => rw [watcher, h]
  | looks hl =>
    obtain ⟨-, ⟨start, hw⟩, -⟩ | ⟨-, ⟨expires, wake, hw, -⟩, -⟩ := looks?_cases hl
    · rw [hw] at h
      cases h
    · rw [hw] at h
      cases h
  | leaves watching hover =>
    rw [watching] at h
    cases h

/-- The notices on the list are those that were ordered. -/
theorem calls_after (bound : Nat) (plan : Plan) (s : Scenario) (ms : List Move) :
    (s.after bound plan ms).calls
      = ((s.notified bound plan ms).map (·.2)).reverse ++ s.calls := by
  refine foldl_induction (P := fun ms t =>
    t.calls = ((s.notified bound plan ms).map (·.2)).reverse ++ s.calls)
      (move bound plan) rfl ?_ ms
  intro ms m h
  have hb := befalls bound plan (s.after bound plan ms) m
  rw [← after] at h ⊢
  rw [notified, orders, looks_concat, List.filterMap_append, List.filterMap_append, ← orders,
    ← notified, look?]
  generalize (s.after bound plan ms).move bound plan m = t at hb ⊢
  cases hb with
  | stays quiet now watcher calls =>
    rw [quiet, calls, h]
    simp
  | @looks _ since hl =>
    rw [hl, look_eq]
    cases ho : plan.deadline.order? (plan.deadline.expires since - (s.after bound plan ms).now) with
    | none => simp [ho, h]
    | some o =>
      rw [Option.elim_some, calls_obey, h]
      cases o <;> simp [ho, Order.left?]
  | leaves => simpa [looks?, begins?, wakes?] using h

end Scenario

end Dialogue.Countdown
