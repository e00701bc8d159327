/-
A time limit with notices.

Whoever watches a deadline looks at the clock, and then either finds the time spent or pauses.
Before a pause it may give notice of the time left.  The length of a pause is computed anew from the
clock each time, so a pause that ends late shortens the ones after it and never moves the end.

Times are whole milliseconds.  The rule is the function `Deadline.round` of the time left; it knows
no clock, so that it can be run against any.
-/
namespace Dialogue.Countdown

/-- A time limit, and how often notice is given.  A tick of zero gives none. -/
structure Deadline where
  budget : Nat
  tick : Nat := 5000
deriving DecidableEq, Repr

/-- What is to be done when some time is left. -/
inductive Round
  /-- The time is spent. -/
  | expired
  | pause (notice : Bool) (length : Nat)
deriving DecidableEq, Repr

namespace Deadline

/-- What is to be done when `left` is left: a pause never goes beyond the end. -/
def round (d : Deadline) (left : Nat) : Round :=
  if left = 0 then .expired
  else if d.tick = 0 then .pause false left
  else .pause true (min left d.tick)

/-- When a watch that begins now has spent its time. -/
def expires (d : Deadline) (now : Nat) : Nat :=
  now + d.budget

theorem round_eq_expired_iff (d : Deadline) (left : Nat) :
    d.round left = .expired ↔ left = 0 := by
  unfold round
  split
  · simp_all
  · split <;> simp_all

/-- A pause takes some time, and no more than is left. -/
theorem pause_bounds {d : Deadline} {left length : Nat} {notice : Bool}
    (h : d.round left = .pause notice length) : 0 < length ∧ length ≤ left := by
  unfold round at h
  split at h
  · cases h
  · split at h
    · cases h; omega
    · cases h; omega

end Deadline

end Dialogue.Countdown
