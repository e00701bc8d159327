/-
Tables whose numbers are stored once.

A table that was made by storing and erasing holds every number once, and then its entries and its
view `get?` say the same.  This is what lets one count the holders of an object.
-/
import Dialogue.Table
import Mathlib.Data.List.Nodup

namespace Dialogue

namespace Table

variable {α : Type}

/-- No number is stored twice. -/
def IsProper (t : Table α) : Prop :=
  (t.entries.map Prod.fst).Nodup

theorem mem_of_get? {t : Table α} {k : Int} {a : α} (h : t.get? k = some a) :
    (k, a) ∈ t.entries := by
  obtain ⟨before, rest, hentries, -⟩ := List.lookup_eq_some_iff.mp h
  rw [hentries]
  exact List.mem_append_right _ List.mem_cons_self

theorem get?_of_mem {t : Table α} (ht : t.IsProper) {k : Int} {a : α} (h : (k, a) ∈ t.entries) :
    t.get? k = some a := by
  unfold IsProper at ht
  unfold get?
  generalize t.entries = entries at ht h
  induction entries with
  | nil => cases h
  | cons e es ih =>
    obtain ⟨i, b⟩ := e
    rw [List.map_cons, List.nodup_cons] at ht
    rw [List.lookup_cons]
    rcases List.mem_cons.mp h with heq | hmem
    · cases heq
      rw [beq_self_eq_true]
    · have hne : k ≠ i := by
        rintro rfl
        exact ht.1 (List.mem_map.mpr ⟨(k, a), hmem, rfl⟩)
      rw [beq_false_of_ne hne]
      exact ih ht.2 hmem

theorem IsProper.erase {t : Table α} (h : t.IsProper) (k : Int) : (t.erase k).IsProper :=
  List.Nodup.sublist (List.filter_sublist.map Prod.fst) h

theorem IsProper.put {t : Table α} (h : t.IsProper) (k : Int) (a : α) : (t.put k a).IsProper := by
  show (((k, a) :: (t.erase k).entries).map Prod.fst).Nodup
  rw [List.map_cons, List.nodup_cons]
  refine ⟨?_, h.erase k⟩
  intro hmem
  obtain ⟨e, he, hk⟩ := List.mem_map.mp hmem
  have hne := (List.mem_filter.mp he).2
  rw [hk] at hne
  simp at hne

theorem mem_values_of_get? {t : Table α} {k : Int} {a : α} (h : t.get? k = some a) :
    a ∈ t.values :=
  List.mem_map_of_mem (f := Prod.snd) (mem_of_get? h)

theorem mem_values_of_erase {t : Table α} {k : Int} {a : α} (h : a ∈ (t.erase k).values) :
    a ∈ t.values := by
  obtain ⟨e, he, ha⟩ := List.mem_map.mp h
  exact List.mem_map.mpr ⟨e, (List.mem_filter.mp he).1, ha⟩

theorem mem_values_of_put {t : Table α} {k : Int} {a b : α} (h : a ∈ (t.put k b).values) :
    a = b ∨ a ∈ t.values := by
  rcases List.mem_cons.mp h with heq | hmem
  · exact .inl heq
  · exact .inr (mem_values_of_erase hmem)

/-- What is stored nowhere once a number is erased was stored under that number. -/
theorem get?_of_gone {t u : Table α} (ht : t.IsProper) {k : Int} {a : α} (ha : a ∈ t.values)
    (hsub : ∀ e ∈ (t.erase k).entries, e ∈ u.entries) (hu : a ∉ u.values) :
    t.get? k = some a := by
  obtain ⟨⟨i, b⟩, he, hb⟩ := List.mem_map.mp ha
  cases hb
  by_cases hik : i = k
  · subst hik
    exact get?_of_mem ht he
  · have hkept : (i, b) ∈ (t.erase k).entries := List.mem_filter.mpr ⟨he, by simpa using hik⟩
    exact absurd (List.mem_map_of_mem (f := Prod.snd) (hsub _ hkept)) hu

end Table

end Dialogue
