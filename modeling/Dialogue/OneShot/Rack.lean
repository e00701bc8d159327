/-
One-shots in a row, and where every capture is.

A capture comes into being when a callable is made.  From then on it is in exactly one place: held
by a one-shot, held by a call in progress, or released.  The rack keeps the last two as lists beside
the slots.  A step may also keep a one-shot of its own outside the slots for as long as it takes;
these are the loose ones, and like the calls in progress they end in the opposite order to their
beginning.
-/
import Dialogue.OneShot.Basic

namespace Dialogue

/-- The place of a one-shot in a rack. -/
abbrev Slot (n : Nat := 8) := Fin n

/-- Where a one-shot is that can be called: in a slot, or outside, kept by the innermost step that
keeps one. -/
inductive Place (n : Nat)
  | slot (i : Slot n)
  | loose
deriving DecidableEq

/-- The slots, the calls in progress with the innermost first, and the captures released so far, the
last one first. -/
structure Rack (n : Nat) where
  slots : Vector OneShot n := .replicate n .empty
  /-- The one-shots kept outside the slots, by the innermost step first. -/
  loose : List OneShot := []
  running : List Callable := []
  released : List Callable := []
  /-- How many callables were made; the next one gets this serial number. -/
  made : Nat := 0

namespace Rack

variable {n : Nat}

/-- The one-shot in a place. -/
def content (r : Rack n) : Place n → OneShot
  | .slot i => r.slots[i]
  | .loose => r.loose.headD .empty

/-- Puts a one-shot in a place, and lets go of nothing. -/
def put (r : Rack n) (p : Place n) (k : OneShot) : Rack n :=
  match p with
  | .slot i => { r with slots := r.slots.set i k }
  | .loose => { r with loose := k :: r.loose.tail }

/-- Which slots hold something. -/
def full (r : Rack n) : List Bool :=
  r.slots.toList.map fun k => !k.isEmpty

/-- Releases what a one-shot holds, if anything. -/
def discard (r : Rack n) (k : OneShot) : Rack n :=
  { r with released := k.payload?.toList ++ r.released }

/-- Puts a one-shot into a slot and discards what was there. -/
def fill (r : Rack n) (i : Slot n) (k : OneShot) : Rack n :=
  (r.put (.slot i) k).discard (r.content (.slot i))

/-- The callable that is made next. -/
def next (r : Rack n) (recipe : OneShot.Recipe) : Callable :=
  ⟨recipe, r.made⟩

/-- Makes a callable and puts it into a slot. -/
def new (r : Rack n) (i : Slot n) (recipe : OneShot.Recipe) : Rack n :=
  { r with made := r.made + 1 }.fill i (.ofCallable (r.next recipe))

/-- Keeps a one-shot outside the slots. -/
def keep (r : Rack n) (k : OneShot) : Rack n :=
  { r with loose := k :: r.loose }

/-- Makes a callable, in a one-shot outside the slots. -/
def newLoose (r : Rack n) (recipe : OneShot.Recipe) : Rack n :=
  { r with made := r.made + 1 }.keep (.ofCallable (r.next recipe))

/-- Takes the one-shot out of a slot and keeps it; an empty one is left in the slot. -/
def takeOut (r : Rack n) (i : Slot n) : Rack n :=
  (r.put (.slot i) .empty).keep (r.content (.slot i))

/-- Drops the one-shot that the innermost step keeps. -/
def dropLoose (r : Rack n) : Rack n :=
  match r.loose with
  | [] => r
  | k :: rest => { r with loose := rest }.discard k

/-- The call of what is in a place begins: what is held there is held by the call, and the place is
empty.  An empty place cannot be called. -/
def begin? (r : Rack n) (p : Place n) : Option (Callable × Rack n) :=
  (r.content p).payload?.map fun c =>
    (c, { r.put p (r.content p).spent with running := c :: r.running })

/-- The innermost call ends, by its return or by a panic, and its captures are released. -/
def finish (r : Rack n) : Rack n :=
  match r.running with
  | [] => r
  | c :: rest => { r with running := rest, released := c :: r.released }

/-- Fills a slot with what another holds, which is then empty. -/
def move (r : Rack n) (i j : Slot n) : Rack n :=
  (r.put (.slot i) .empty).fill j (r.content (.slot i))

/-- Exchanges the contents of two slots. -/
def swap (r : Rack n) (i j : Slot n) : Rack n :=
  (r.put (.slot i) (r.content (.slot j))).put (.slot j) (r.content (.slot i))

/-- Empties a slot and discards what was there. -/
def drop (r : Rack n) (i : Slot n) : Rack n :=
  r.fill i .empty

/-! ### What each operation does to a place -/

@[simp] theorem running_put (r : Rack n) (p : Place n) (k : OneShot) :
    (r.put p k).running = r.running := by
  cases p <;> rfl

@[simp] theorem released_put (r : Rack n) (p : Place n) (k : OneShot) :
    (r.put p k).released = r.released := by
  cases p <;> rfl

@[simp] theorem made_put (r : Rack n) (p : Place n) (k : OneShot) :
    (r.put p k).made = r.made := by
  cases p <;> rfl

theorem content_put (r : Rack n) (p q : Place n) (k : OneShot) :
    (r.put p k).content q = if q = p then k else r.content q := by
  cases p with
  | slot i =>
    cases q with
    | slot j =>
      by_cases h : j = i
      · subst h
        simp [put, content]
      · have hv : i.val ≠ j.val := fun hc => h (Fin.ext hc.symm)
        simp [put, content, h, hv]
    | loose => rfl
  | loose =>
    cases q with
    | slot j => rfl
    | loose => rfl

@[simp] theorem content_discard (r : Rack n) (k : OneShot) (p : Place n) :
    (r.discard k).content p = r.content p := by
  cases p <;> rfl

theorem content_fill (r : Rack n) (i : Slot n) (p : Place n) (k : OneShot) :
    (r.fill i k).content p = if p = .slot i then k else r.content p := by
  rw [fill, content_discard, content_put]

/-- A new callable fills its slot and no other place. -/
theorem content_new (r : Rack n) (i : Slot n) (p : Place n) (recipe : OneShot.Recipe) :
    (r.new i recipe).content p =
      if p = .slot i then .ofCallable (r.next recipe) else r.content p := by
  rw [new, content_fill]
  cases p <;> rfl

/-- A slot moved to itself is left alone, and nothing is released. -/
theorem move_self (r : Rack n) (i : Slot n) : r.move i i = r := by
  simp [move, fill, discard, put, content]

/-- Where a call begins is empty from then on, and nothing else has changed. -/
theorem content_begin? {r r' : Rack n} {p q : Place n} {c : Callable}
    (h : r.begin? p = some (c, r')) :
    r'.content q = if q = p then (r.content p).spent else r.content q := by
  unfold begin? at h
  obtain ⟨_, _, hr⟩ := Option.map_eq_some_iff.mp h
  cases hr
  rw [← content_put]
  cases q <;> rfl

/-- The end of a call leaves every place as it is. -/
@[simp] theorem content_finish (r : Rack n) (p : Place n) : r.finish.content p = r.content p := by
  unfold finish
  split <;> cases p <;> rfl

end Rack

end Dialogue
