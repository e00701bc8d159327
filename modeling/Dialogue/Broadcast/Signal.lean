/-
A signal that fires once.

Listeners register while the signal is armed and get a number of their own; by that number a
listener is removed again.  Firing hands out every listener that is registered then and makes the
signal *fired*, for good, before any of them runs.  So whatever listeners do to the signal when they
run, they find it fired and empty: nobody can be added, removed or run twice any more.
-/

namespace Dialogue.Broadcast

/-- A signal with listeners `κ`.  Registrations are numbered from 0, and no number is used
twice. -/
inductive Signal (κ : Type)
  | armed (nextId : Nat) (slots : List (Nat × κ))
  | fired

namespace Signal

variable {κ : Type}

/-- A signal as it is made. -/
def fresh : Signal κ := armed 0 []

instance : Inhabited (Signal κ) := ⟨fresh⟩

def isFired : Signal κ → Bool
  | fired => true
  | armed _ _ => false

/-- The registrations of an armed signal. -/
def slots : Signal κ → List (Nat × κ)
  | armed _ slots => slots
  | fired => []

/-- Registers a listener, unless the signal has fired. -/
def register? (s : Signal κ) (k : κ) : Option (Nat × Signal κ) :=
  match s with
  | armed nextId slots => some (nextId, armed (nextId + 1) (slots ++ [(nextId, k)]))
  | fired => none

/-- Removes a registration. -/
def disconnect (s : Signal κ) (id : Nat) : Signal κ :=
  match s with
  | armed nextId slots => armed nextId (slots.filter (·.1 != id))
  | fired => fired

/-! ### A signal fires for good -/

@[simp] theorem isFired_disconnect (s : Signal κ) (id : Nat) :
    (s.disconnect id).isFired = s.isFired := by
  cases s <;> rfl

theorem register?_eq_none_iff (s : Signal κ) (k : κ) :
    s.register? k = none ↔ s.isFired = true := by
  cases s <;> simp [register?, isFired]

theorem slots_of_register? {s t : Signal κ} {k : κ} {id : Nat}
    (h : s.register? k = some (id, t)) : t.slots = s.slots ++ [(id, k)] := by
  cases s with
  | armed n slots => simp [register?] at h; obtain ⟨rfl, rfl⟩ := h; rfl
  | fired => simp [register?] at h

@[simp] theorem slots_disconnect (s : Signal κ) (id : Nat) :
    (s.disconnect id).slots = s.slots.filter (·.1 != id) := by
  cases s <;> rfl

end Signal

end Dialogue.Broadcast
