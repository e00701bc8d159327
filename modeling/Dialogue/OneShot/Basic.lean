/-
A callable that can be called once.

A `OneShot` holds at most one callable.  Calling it takes the callable out, so a second call finds
nothing.  What the callable captured is kept in place when it is small and moderately aligned, and
behind a box otherwise.  That choice depends on the layout alone, and only `isInline` and the text
of a one-shot can see it.

Taking the callable out copies it and leaves the storage as it is.  So that it is not released
twice, the kind is cleared first: nothing reads a storage without one.
-/

namespace Dialogue

/-- How much room a captured value takes and on which boundary it lies, in bytes. -/
structure Layout where
  size : Nat
  align : Nat
deriving DecidableEq, Repr

namespace Layout

/-- The room for a capture kept in place: six machine words. -/
def inlineCapacity : Nat := 48

/-- The strictest alignment of a capture kept in place. -/
def inlineAlign : Nat := 16

/-- A capture is kept in place exactly when it fits in both respects. -/
def isInline (l : Layout) : Bool :=
  l.size ≤ inlineCapacity && l.align ≤ inlineAlign

theorem isInline_iff (l : Layout) : l.isInline = true ↔ l.size ≤ 48 ∧ l.align ≤ 16 := by
  rw [isInline, Bool.and_eq_true, decide_eq_true_eq, decide_eq_true_eq]
  rfl

end Layout

/-- What a callable is made from: the name of its body, if it has one, and what it captures. -/
structure OneShot.Recipe where
  name : Option Int
  captured : List UInt8
  layout : Layout
deriving DecidableEq, Repr

/-- A callable, as made: after a recipe, with a serial number of its own. -/
structure Callable extends OneShot.Recipe where
  serial : Nat
deriving DecidableEq, Repr

namespace Callable

/-- The first captured byte, which tells callables apart when they are released. -/
def tag? (c : Callable) : Option UInt8 :=
  c.captured.head?

/-- The sum of the captured bytes. -/
def sum (c : Callable) : Nat :=
  c.captured.foldl (fun total byte => total + byte.toNat) 0

/-- A call answers its argument plus the captured bytes, in 64 bits and wrapping. -/
def value (c : Callable) (arg : Int64) : Int64 :=
  arg + Int64.ofInt c.sum

end Callable

namespace OneShot

/-- The room inside a one-shot.  What is read out of it stays there as well. -/
inductive Storage
  /-- Nothing was written yet. -/
  | blank
  | inPlace (payload : Callable)
  | box (payload : Callable)
deriving DecidableEq, Repr

/-- How a payload is reached: in place, or through a box. -/
inductive Kind
  | inline
  | boxed
deriving DecidableEq, Repr

/-- Reads a payload out of room that was written in the same way. -/
def Kind.read? : Kind → Storage → Option Callable
  | .inline, .inPlace c => some c
  | .boxed, .box c => some c
  | _, _ => none

end OneShot

/-- A holder of at most one callable.  Only the kind says whether it holds one: a payload that has
been taken out is still found in the storage. -/
structure OneShot where
  storage : OneShot.Storage
  kind : Option OneShot.Kind
  /-- A kind is set only while it describes what is in the storage. -/
  sound : ∀ k, kind = some k → (k.read? storage).isSome
deriving DecidableEq, Repr

namespace OneShot

/-- The one-shot that never held anything. -/
def empty : OneShot :=
  ⟨.blank, none, nofun⟩

instance : Inhabited OneShot := ⟨empty⟩

/-- The one-shot that holds a callable, in place if its layout allows. -/
def ofCallable (c : Callable) : OneShot :=
  if c.layout.isInline then
    ⟨.inPlace c, some .inline, by intro k hk; cases hk; rfl⟩
  else
    ⟨.box c, some .boxed, by intro k hk; cases hk; rfl⟩

/-- The callable held. -/
def payload? (k : OneShot) : Option Callable :=
  k.kind.bind (·.read? k.storage)

/-- The one-shot after its callable was taken out: the kind is cleared, and the storage is not. -/
def spent (k : OneShot) : OneShot :=
  ⟨k.storage, none, nofun⟩

def isEmpty (k : OneShot) : Bool :=
  k.kind.isNone

def isInline (k : OneShot) : Bool :=
  k.kind == some .inline

/-- The text of a one-shot names how it holds its callable, never the callable. -/
def text (k : OneShot) : String :=
  match k.kind with
  | none => "Continuation(\"empty\")"
  | some .inline => "Continuation(\"inline\")"
  | some .boxed => "Continuation(\"boxed\")"

@[simp] theorem payload?_empty : empty.payload? = none := rfl

@[simp] theorem payload?_spent (k : OneShot) : k.spent.payload? = none := rfl

@[simp] theorem payload?_ofCallable (c : Callable) : (ofCallable c).payload? = some c := by
  unfold ofCallable; split <;> rfl

@[simp] theorem isEmpty_ofCallable (c : Callable) : (ofCallable c).isEmpty = false := by
  unfold ofCallable; split <;> rfl

@[simp] theorem isInline_ofCallable (c : Callable) :
    (ofCallable c).isInline = c.layout.isInline := by
  unfold ofCallable; split <;> simp_all [isInline]

/-- A kind is never set without a payload. -/
theorem isEmpty_iff (k : OneShot) : k.isEmpty = true ↔ k.payload? = none := by
  unfold isEmpty payload?
  cases hk : k.kind with
  | none => simp
  | some kind => simpa using Option.isSome_iff_ne_none.mp (k.sound kind hk)

end OneShot

end Dialogue
