/-
One-shots that differ in their layouts.

Two callables are alike if they were made in the same order, name the same body and captured the
same bytes; how much room the captures take and on which boundary they lie may differ.  Two
one-shots are alike if they hold alike callables, or both hold none, and each tells truthfully how
it holds its own: in place exactly if the capture is at most 48 bytes in size and 16 in alignment.

No operation of a rack asks how a callable is held, so **every operation takes alike racks to alike
ones**: one lemma for each.
-/
import Dialogue.OneShot.Rack
import Mathlib.Data.List.Forall2

namespace Dialogue

/-- What a one-shot says of its storage, by the layout of what it holds. -/
inductive OneShot.Says : Option Layout → Bool → String → Prop
  | empty : Says none false "Continuation(\"empty\")"
  | inline {l : Layout} (size : l.size ≤ 48) (align : l.align ≤ 16) :
      Says (some l) true "Continuation(\"inline\")"
  | boxed {l : Layout} (h : 48 < l.size ∨ 16 < l.align) :
      Says (some l) false "Continuation(\"boxed\")"

/-- A one-shot that tells truthfully how it holds its callable. -/
def OneShot.IsTruthful (k : OneShot) : Prop :=
  Says (k.payload?.map (·.layout)) k.isInline k.text

/-- Callables that differ in their layouts at most. -/
structure Callable.Alike (c d : Callable) : Prop where
  serial : c.serial = d.serial
  name : c.name = d.name
  captured : c.captured = d.captured

/-- One-shots that hold alike callables, each in its own way. -/
structure OneShot.Alike (k l : OneShot) : Prop where
  payload : Option.Rel Callable.Alike k.payload? l.payload?
  left : k.IsTruthful
  right : l.IsTruthful

/-- Racks with alike one-shots in each place, and alike captures in the calls in progress and among
what was released, in the same order. -/
structure Rack.Alike {n : Nat} (r q : Rack n) : Prop where
  slots : ∀ i, (r.content (.slot i)).Alike (q.content (.slot i))
  loose : List.Forall₂ OneShot.Alike r.loose q.loose
  running : List.Forall₂ Callable.Alike r.running q.running
  released : List.Forall₂ Callable.Alike r.released q.released
  made : r.made = q.made

section

variable {α β : Type} {R : α → α → Prop} {S : β → β → Prop} {a a' : Option α}

theorem rel_map {f f' : α → β} (h : Option.Rel R a a')
    (hf : ∀ x y, R x y → S (f x) (f' y)) : Option.Rel S (a.map f) (a'.map f') := by
  cases h with
  | some hxy => exact .some (hf _ _ hxy)
  | none => exact .none

theorem rel_toList (h : Option.Rel R a a') : List.Forall₂ R a.toList a'.toList := by
  cases h with
  | some hxy => exact .cons hxy .nil
  | none => exact .nil

theorem rel_none (h : Option.Rel R a a') : a = none ↔ a' = none := by
  cases h <;> simp

end

namespace Callable.Alike

variable {c d : Callable}

theorem tag? (h : c.Alike d) : c.tag? = d.tag? :=
  congrArg List.head? h.captured

theorem value (h : c.Alike d) (arg : Int64) : c.value arg = d.value arg := by
  unfold Callable.value Callable.sum
  rw [h.captured]

end Callable.Alike

namespace OneShot

variable {k l : OneShot}

/-- What is made is held as its layout allows. -/
theorem says_ofCallable (c : Callable) :
    Says (some c.layout) (ofCallable c).isInline (ofCallable c).text := by
  unfold ofCallable
  split
  · rename_i h
    obtain ⟨hsize, halign⟩ := c.layout.isInline_iff.mp h
    exact .inline hsize halign
  · rename_i h
    refine .boxed ?_
    have hfits := mt c.layout.isInline_iff.mpr h
    omega

namespace Alike

theorem empty : Alike .empty .empty :=
  ⟨.none, .empty, .empty⟩

theorem spent (k l : OneShot) : Alike k.spent l.spent :=
  ⟨.none, .empty, .empty⟩

theorem ofCallable {c d : Callable} (h : c.Alike d) : Alike (.ofCallable c) (.ofCallable d) := by
  refine ⟨?_, ?_, ?_⟩
  · rw [payload?_ofCallable, payload?_ofCallable]
    exact .some h
  · unfold IsTruthful
    rw [payload?_ofCallable]
    exact says_ofCallable c
  · unfold IsTruthful
    rw [payload?_ofCallable]
    exact says_ofCallable d

theorem isEmpty (h : Alike k l) : k.isEmpty = l.isEmpty := by
  rw [Bool.eq_iff_iff, isEmpty_iff, isEmpty_iff]
  exact rel_none h.payload

end Alike

end OneShot

namespace Rack.Alike

open OneShot (Alike)

variable {n : Nat} {r q : Rack n} {k l : OneShot}

/-- Alike racks are alike in every place, also outside the slots. -/
theorem content (h : r.Alike q) (p : Place n) : (r.content p).Alike (q.content p) := by
  cases p with
  | slot i => exact h.slots i
  | loose =>
    have hloose := h.loose
    unfold Rack.content
    generalize r.loose = ks at hloose
    generalize q.loose = ls at hloose
    cases hloose with
    | nil => exact .empty
    | cons hk _ => exact hk

theorem full (h : r.Alike q) : r.full = q.full := by
  unfold Rack.full
  refine List.ext_getElem (by simp) ?_
  intro i hi hi'
  have hn : i < n := by simpa using hi
  simpa [Rack.content] using (h.slots ⟨i, hn⟩).isEmpty

theorem start : Rack.Alike ({} : Rack n) {} := by
  refine ⟨?_, .nil, .nil, .nil, rfl⟩
  intro i
  simpa [Rack.content] using Alike.empty

theorem put (h : r.Alike q) (p : Place n) (hk : k.Alike l) : (r.put p k).Alike (q.put p l) := by
  refine ⟨?_, ?_, ?_, ?_, ?_⟩
  · intro i
    rw [content_put, content_put]
    split
    · exact hk
    · exact h.slots i
  · cases p with
    | slot i => exact h.loose
    | loose =>
      have hbelow := List.forall₂_drop 1 h.loose
      rw [List.drop_one, List.drop_one] at hbelow
      exact .cons hk hbelow
  · rw [running_put, running_put]
    exact h.running
  · rw [released_put, released_put]
    exact h.released
  · rw [made_put, made_put]
    exact h.made

theorem discard (h : r.Alike q) (hk : k.Alike l) : (r.discard k).Alike (q.discard l) := by
  refine ⟨?_, h.loose, h.running, List.rel_append (rel_toList hk.payload) h.released, h.made⟩
  intro i
  rw [content_discard, content_discard]
  exact h.slots i

theorem fill (h : r.Alike q) (i : Slot n) (hk : k.Alike l) : (r.fill i k).Alike (q.fill i l) :=
  (h.put (.slot i) hk).discard (h.slots i)

theorem keep (h : r.Alike q) (hk : k.Alike l) : (r.keep k).Alike (q.keep l) :=
  ⟨h.slots, .cons hk h.loose, h.running, h.released, h.made⟩

/-- The next callable is the same but for its layout. -/
theorem next (h : r.Alike q) (recipe : OneShot.Recipe) (layout : Layout) :
    (r.next recipe).Alike (q.next { recipe with layout }) :=
  ⟨h.made, rfl, rfl⟩

theorem count (h : r.Alike q) :
    Rack.Alike { r with made := r.made + 1 } { q with made := q.made + 1 } :=
  ⟨h.slots, h.loose, h.running, h.released, congrArg (· + 1) h.made⟩

theorem new (h : r.Alike q) (i : Slot n) (recipe : OneShot.Recipe) (layout : Layout) :
    (r.new i recipe).Alike (q.new i { recipe with layout }) :=
  h.count.fill i (.ofCallable (h.next recipe layout))

theorem newLoose (h : r.Alike q) (recipe : OneShot.Recipe) (layout : Layout) :
    (r.newLoose recipe).Alike (q.newLoose { recipe with layout }) :=
  h.count.keep (.ofCallable (h.next recipe layout))

theorem takeOut (h : r.Alike q) (i : Slot n) : (r.takeOut i).Alike (q.takeOut i) :=
  (h.put (.slot i) .empty).keep (h.slots i)

theorem dropLoose (h : r.Alike q) : r.dropLoose.Alike q.dropLoose := by
  have hloose := h.loose
  unfold Rack.dropLoose
  split <;> rename_i hr <;> split <;> rename_i hq <;> rw [hr, hq] at hloose <;> cases hloose
  · exact h
  · rename_i hk hrest
    exact discard ⟨h.slots, hrest, h.running, h.released, h.made⟩ hk

theorem finish (h : r.Alike q) : r.finish.Alike q.finish := by
  have hrunning := h.running
  unfold Rack.finish
  split <;> rename_i hr <;> split <;> rename_i hq <;> rw [hr, hq] at hrunning <;> cases hrunning
  · exact h
  · rename_i hc hrest
    exact ⟨h.slots, h.loose, hrest, .cons hc h.released, h.made⟩

theorem move (h : r.Alike q) (i j : Slot n) : (r.move i j).Alike (q.move i j) :=
  (h.put (.slot i) .empty).fill j (h.slots i)

theorem swap (h : r.Alike q) (i j : Slot n) : (r.swap i j).Alike (q.swap i j) :=
  (h.put (.slot i) (h.slots j)).put (.slot j) (h.slots i)

theorem drop (h : r.Alike q) (i : Slot n) : (r.drop i).Alike (q.drop i) :=
  h.fill i .empty

/-- A call begins in both or in neither, and takes out what is alike. -/
theorem begin? (h : r.Alike q) (p : Place n) :
    Option.Rel (fun b b' => b.1.Alike b'.1 ∧ b.2.Alike b'.2) (r.begin? p) (q.begin? p) := by
  have hput := h.put p (OneShot.Alike.spent (r.content p) (q.content p))
  refine rel_map (h.content p).payload ?_
  intro c d hcd
  exact ⟨hcd, hput.slots, hput.loose, .cons hcd h.running, hput.released, hput.made⟩

/-- All that was released, the last one first, begins with the same bytes. -/
theorem tags (h : r.Alike q) : r.released.map (·.tag?) = q.released.map (·.tag?) := by
  rw [← List.forall₂_eq_eq_eq, List.forall₂_map_left_iff, List.forall₂_map_right_iff]
  exact h.released.imp fun _ _ hcd => hcd.tag?

end Rack.Alike

end Dialogue
