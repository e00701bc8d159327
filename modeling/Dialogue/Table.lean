/-
Objects kept under numbers.

A script names its queues, tokens, connections and futures by number, and storing an object under a
number that is in use replaces the old one.  A `Table` is that store.  It holds at most one object
per number, so everything about it is said through one view, `get?`: what was put is found, what was
erased is gone, and no other number notices.
-/

namespace Dialogue

/-- A finite map from numbers to objects. -/
structure Table (α : Type) where
  /-- The objects with their numbers, the one stored last first. -/
  entries : List (Int × α) := []

namespace Table

variable {α β : Type}

/-- The table that holds nothing. -/
def empty : Table α := {}

instance : Inhabited (Table α) := ⟨empty⟩

/-- The object under a number. -/
def get? (t : Table α) (k : Int) : Option α :=
  t.entries.lookup k

/-- Whether an object is stored under a number. -/
def contains (t : Table α) (k : Int) : Bool :=
  (t.get? k).isSome

/-- The table without the object under a number. -/
def erase (t : Table α) (k : Int) : Table α :=
  ⟨t.entries.filter (·.1 != k)⟩

/-- The table with an object stored under a number, in place of whatever was there. -/
def put (t : Table α) (k : Int) (a : α) : Table α :=
  ⟨(k, a) :: (t.erase k).entries⟩

/-- All stored objects. -/
def values (t : Table α) : List α :=
  t.entries.map (·.2)

/-- The table with a function applied to every object. -/
def map (f : α → β) (t : Table α) : Table β :=
  ⟨t.entries.map fun e => (e.1, f e.2)⟩

/-! ### What each operation does to the view -/

@[simp] theorem get?_empty (k : Int) : (empty : Table α).get? k = none := rfl

private theorem lookup_cons_eq_ite (i : Int) (a : α) (es : List (Int × α)) (j : Int) :
    List.lookup j ((i, a) :: es) = if j = i then some a else es.lookup j := by
  by_cases h : j = i
  · simp [h]
  · have hb : (j == i) = false := beq_false_of_ne h
    simp [List.lookup_cons, hb, h]

private theorem lookup_filter_ne (es : List (Int × α)) (k j : Int) :
    (es.filter (·.1 != k)).lookup j = if j = k then none else es.lookup j := by
  induction es with
  | nil => simp
  | cons e es ih =>
    obtain ⟨i, a⟩ := e
    rw [List.filter_cons, lookup_cons_eq_ite]
    by_cases hik : i = k
    · subst hik
      have hb : (i != i) = false := by simp
      simp only [hb, Bool.false_eq_true, if_false, ih]
      by_cases hj : j = i <;> simp [hj]
    · have hb : (i != k) = true := by simpa using hik
      simp only [hb, if_true, lookup_cons_eq_ite, ih]
      by_cases hji : j = i <;> simp [hji, hik]

theorem get?_erase (t : Table α) (k j : Int) :
    (t.erase k).get? j = if j = k then none else t.get? j :=
  lookup_filter_ne t.entries k j

theorem get?_put (t : Table α) (k j : Int) (a : α) :
    (t.put k a).get? j = if j = k then some a else t.get? j := by
  have hg := get?_erase t k j
  simp only [get?] at hg
  by_cases h : j = k <;> simp [get?, put, lookup_cons_eq_ite, hg, h]

@[simp] theorem get?_put_self (t : Table α) (k : Int) (a : α) : (t.put k a).get? k = some a := by
  simp [get?_put]

@[simp] theorem get?_erase_self (t : Table α) (k : Int) : (t.erase k).get? k = none := by
  simp [get?_erase]

end Table

end Dialogue
