/-
Who has a capture.

A one-shot has what its kind says it holds, whatever else is still found in its storage; a call in
progress has the captures of the callable that it took out; and the rest has been released.  Every
operation on a rack takes captures from one of these to another, and only making a callable adds
one.  `Keeps` says this of an operation, together with what cannot be taken back: what was released
stays so, and what a call has taken never gets into a one-shot again.

`IsOwned` is what follows for a whole history.  **Each capture ever created is in exactly one
place**, and no callable is invoked twice, since an invoked one is no longer held.
-/
import Dialogue.OneShot.Rack
import Mathlib.Data.List.Perm.Basic

namespace Dialogue

namespace Rack

variable {n : Nat} {r q : Rack n}

/-- The one-shots there are, in the slots and outside. -/
def shots (r : Rack n) : List OneShot :=
  r.slots.toList ++ r.loose

/-- What one-shots hold. -/
def payloads (ks : List OneShot) : List Callable :=
  ks.filterMap (·.payload?)

/-- The callables that were made, by where their captures are: held by a one-shot, held by a call in
progress, or released. -/
def captures (r : Rack n) : List Callable :=
  payloads r.shots ++ (r.running ++ r.released)

theorem payloads_cons (k : OneShot) (ks : List OneShot) :
    payloads (k :: ks) = k.payload?.toList ++ payloads ks := by
  unfold payloads
  cases h : k.payload? <;> simp [h]

theorem payloads_perm {ks ls : List OneShot} (h : ks.Perm ls) : (payloads ks).Perm (payloads ls) :=
  h.filterMap _

/-- What a place holds is held by one of the one-shots. -/
theorem mem_payloads {p : Place n} {c : Callable} (h : (r.content p).payload? = some c) :
    c ∈ payloads r.shots := by
  refine List.mem_filterMap.mpr ⟨r.content p, ?_, h⟩
  cases p with
  | slot i => exact List.mem_append_left _ (by simp [content])
  | loose =>
    cases hloose : r.loose with
    | nil =>
      rw [content, hloose] at h
      cases h
    | cons k rest => exact List.mem_append_right _ (by simp [content, hloose])

/-! ### Where the one-shots go -/

theorem shots_keep (r : Rack n) (k : OneShot) : (r.keep k).shots.Perm (k :: r.shots) :=
  List.perm_middle

/-- What was in a slot is exchanged for what is put there. -/
theorem shots_put (r : Rack n) (i : Slot n) (k : OneShot) :
    (r.content (.slot i) :: (r.put (.slot i) k).shots).Perm (k :: r.shots) := by
  have hset := List.getD_set_perm_cons r.slots.toList i k
  have hget : r.slots.toList[i.val]?.getD k = r.content (.slot i) := by
    simp [content]
  rw [hget] at hset
  have hput : (r.put (.slot i) k).shots = r.slots.toList.set i k ++ r.loose :=
    congrArg (· ++ r.loose) (Vector.toList_set i.isLt)
  rw [hput]
  exact hset.append_right r.loose

/-- What is kept outside by the innermost step is exchanged likewise, if there is anything. -/
theorem shots_put_loose {k' : OneShot} {rest : List OneShot} (h : r.loose = k' :: rest)
    (k : OneShot) : (r.content .loose :: (r.put .loose k).shots).Perm (k :: r.shots) := by
  have hcontent : r.content .loose = k' := by
    simp [content, h]
  have hput : (r.put .loose k).shots = r.slots.toList ++ k :: rest := by
    simp [put, shots, h]
  rw [hcontent, hput, shots, h]
  exact ((List.perm_middle.cons k').trans (.swap k k' _)).trans (List.perm_middle.symm.cons k)

/-- An empty one-shot is left where one was taken out. -/
theorem payloads_takeOut (r : Rack n) (i : Slot n) :
    (payloads (r.takeOut i).shots).Perm (payloads r.shots) := by
  have htaken : (r.takeOut i).shots.Perm (.empty :: r.shots) :=
    (shots_keep _ _).trans (shots_put r i .empty)
  have hheld := payloads_perm htaken
  rwa [payloads_cons, OneShot.payload?_empty, Option.toList_none, List.nil_append] at hheld

theorem shots_swap (r : Rack n) (i j : Slot n) : (r.swap i j).shots.Perm r.shots := by
  have hsecond : (r.put (.slot i) (r.content (.slot j))).content (.slot j)
      = r.content (.slot j) := by
    rw [content_put]
    exact ite_self _
  have hput := shots_put (r.put (.slot i) (r.content (.slot j))) j (r.content (.slot i))
  rw [hsecond] at hput
  exact (hput.trans (shots_put r i _)).cons_inv

/-! ### Where the captures go -/

/-- What an operation does to the captures: a callable may be made, each capture stays in one place,
and none is taken back from a call or after its release. -/
structure Keeps (r q : Rack n) (made : Option Callable) : Prop where
  captures : q.captures.Perm (r.captures ++ made.toList)
  serial : ∀ c ∈ made, c.serial = r.made
  count : q.made = r.made + made.toList.length
  released : r.released <:+ q.released
  spent : ∀ c ∈ r.running ++ r.released, c ∈ q.running ++ q.released

theorem Keeps.refl (r : Rack n) : Keeps r r none :=
  ⟨by rw [Option.toList_none, List.append_nil], nofun, rfl, List.suffix_rfl, fun _ hc => hc⟩

/-- No call begins or ends. -/
theorem keeps_of_running {made : Option Callable}
    (hcaptures : q.captures.Perm (r.captures ++ made.toList))
    (hserial : ∀ c ∈ made, c.serial = r.made) (hcount : q.made = r.made + made.toList.length)
    (hreleased : r.released <:+ q.released) (hrunning : q.running = r.running) :
    Keeps r q made := by
  refine ⟨hcaptures, hserial, hcount, hreleased, ?_⟩
  intro c hc
  rw [hrunning]
  rcases List.mem_append.mp hc with hrun | hgone
  · exact List.mem_append_left _ hrun
  · exact List.mem_append_right _ (hreleased.mem hgone)

/-- No call begins or ends, and nothing is released. -/
theorem captures_of_payloads {a b : List Callable}
    (h : (a ++ payloads q.shots).Perm (b ++ payloads r.shots))
    (hrest : q.running ++ q.released = r.running ++ r.released) :
    (a ++ q.captures).Perm (b ++ r.captures) := by
  have hall := h.append_right (r.running ++ r.released)
  rw [List.append_assoc, List.append_assoc] at hall
  rw [captures, hrest]
  exact hall

/-- The one-shots change places. -/
theorem keeps_of_shots (hshots : (payloads q.shots).Perm (payloads r.shots))
    (hrunning : q.running = r.running) (hreleased : q.released = r.released)
    (hmade : q.made = r.made) : Keeps r q none := by
  have hsame : ([] ++ q.captures).Perm ([] ++ r.captures) :=
    captures_of_payloads hshots (by rw [hrunning, hreleased])
  refine keeps_of_running ?_ nofun hmade (hreleased ▸ List.suffix_rfl) hrunning
  rw [Option.toList_none, List.append_nil]
  exact hsame

theorem keeps_swap (r : Rack n) (i j : Slot n) : Keeps r (r.swap i j) none :=
  keeps_of_shots (payloads_perm (shots_swap r i j)) rfl rfl rfl

theorem keeps_takeOut (r : Rack n) (i : Slot n) : Keeps r (r.takeOut i) none :=
  keeps_of_shots (payloads_takeOut r i) rfl rfl rfl

/-- What is put in a slot is exchanged for what was held there. -/
theorem captures_put (r : Rack n) (i : Slot n) (k : OneShot) :
    ((r.content (.slot i)).payload?.toList ++ (r.put (.slot i) k).captures).Perm
      (k.payload?.toList ++ r.captures) := by
  have hheld := payloads_perm (shots_put r i k)
  rw [payloads_cons, payloads_cons] at hheld
  exact captures_of_payloads hheld rfl

/-- What is let go of is released. -/
theorem captures_discard (r : Rack n) (k : OneShot) :
    (r.discard k).captures.Perm (k.payload?.toList ++ r.captures) := by
  have hreleased : (r.running ++ (k.payload?.toList ++ r.released)).Perm
      (k.payload?.toList ++ (r.running ++ r.released)) := List.perm_append_comm_assoc _ _ _
  exact (hreleased.append_left (payloads r.shots)).trans (List.perm_append_comm_assoc _ _ _)

/-- What is overwritten is released. -/
theorem captures_fill (r : Rack n) (i : Slot n) (k : OneShot) :
    (r.fill i k).captures.Perm (k.payload?.toList ++ r.captures) :=
  (captures_discard _ _).trans (captures_put r i k)

theorem released_fill (r : Rack n) (i : Slot n) (k : OneShot) :
    r.released <:+ (r.fill i k).released :=
  List.suffix_append _ _

theorem keeps_drop (r : Rack n) (i : Slot n) : Keeps r (r.drop i) none := by
  refine keeps_of_running ?_ nofun rfl (released_fill r i .empty) rfl
  rw [Option.toList_none, List.append_nil]
  exact captures_fill r i .empty

theorem keeps_new (r : Rack n) (i : Slot n) (recipe : OneShot.Recipe) :
    Keeps r (r.new i recipe) (some (r.next recipe)) := by
  let k := OneShot.ofCallable (r.next recipe)
  refine keeps_of_running ?_ ?_ rfl (released_fill { r with made := r.made + 1 } i k) rfl
  · have hfill := captures_fill { r with made := r.made + 1 } i k
    rw [OneShot.payload?_ofCallable] at hfill
    exact hfill.trans List.perm_append_comm
  · intro c hc
    cases hc
    rfl

theorem keeps_move (r : Rack n) (i j : Slot n) : Keeps r (r.move i j) none := by
  let k := r.content (.slot i)
  refine keeps_of_running ?_ nofun rfl (released_fill (r.put (.slot i) .empty) j k) rfl
  rw [Option.toList_none, List.append_nil]
  exact (captures_fill (r.put (.slot i) .empty) j k).trans (captures_put r i .empty)

theorem keeps_newLoose (r : Rack n) (recipe : OneShot.Recipe) :
    Keeps r (r.newLoose recipe) (some (r.next recipe)) := by
  refine keeps_of_running ?_ ?_ rfl List.suffix_rfl rfl
  · have hkeep := payloads_perm (shots_keep r (.ofCallable (r.next recipe)))
    rw [payloads_cons, OneShot.payload?_ofCallable] at hkeep
    have hall : ([] ++ (r.newLoose recipe).captures).Perm ([_] ++ r.captures) :=
      captures_of_payloads hkeep rfl
    exact hall.trans List.perm_append_comm
  · intro c hc
    cases hc
    rfl

/-- The one-shot that a step kept is dropped at its end, with what it holds by then. -/
theorem keeps_dropLoose (r : Rack n) : Keeps r r.dropLoose none := by
  unfold dropLoose
  cases h : r.loose with
  | nil => exact .refl r
  | cons k rest =>
    refine keeps_of_running ?_ nofun rfl (List.suffix_append _ _) rfl
    rw [Option.toList_none, List.append_nil]
    have hkeep := payloads_perm (shots_keep { r with loose := rest } k)
    rw [payloads_cons] at hkeep
    have hall : ([] ++ ({ r with loose := rest }.keep k).captures).Perm _ :=
      captures_of_payloads hkeep rfl
    have hkept : { r with loose := rest }.keep k = r := by
      rw [keep, ← h]
    rw [hkept] at hall
    exact (captures_discard _ k).trans hall.symm

/-! ### Calls -/

/-- A call takes over what was held where it begins. -/
structure Takes (r : Rack n) (p : Place n) (c : Callable) (q : Rack n) : Prop where
  held : (r.content p).payload? = some c
  empty : (q.content p).isEmpty = true
  content : ∀ p', p' ≠ p → q.content p' = r.content p'
  running : q.running = c :: r.running
  released : q.released = r.released

theorem takes_of_begin? {p : Place n} {c : Callable} (h : r.begin? p = some (c, q)) :
    Takes r p c q := by
  have hcontent := fun p' => content_begin? (q := p') h
  unfold begin? at h
  obtain ⟨c', hheld, hq⟩ := Option.map_eq_some_iff.mp h
  cases hq
  refine ⟨hheld, ?_, ?_, rfl, ?_⟩
  · rw [hcontent, if_pos rfl]
    rfl
  · intro p' hp
    rw [hcontent, if_neg hp]
  · cases p <;> rfl

/-- What a place holds that can be called is found nowhere else once it was taken out. -/
theorem payloads_spent {p : Place n} {c : Callable} (h : (r.content p).payload? = some c) :
    (c :: payloads (r.put p (r.content p).spent).shots).Perm (payloads r.shots) := by
  have hput : (r.content p :: (r.put p (r.content p).spent).shots).Perm
      ((r.content p).spent :: r.shots) := by
    cases p with
    | slot i => exact shots_put r i _
    | loose =>
      cases hloose : r.loose with
      | nil =>
        rw [content, hloose] at h
        cases h
      | cons k rest => exact shots_put_loose hloose _
  have hheld := payloads_perm hput
  rwa [payloads_cons, payloads_cons, h] at hheld

theorem keeps_begin? {p : Place n} {c : Callable} (h : r.begin? p = some (c, q)) :
    Keeps r q none := by
  unfold begin? at h
  obtain ⟨c', hheld, hq⟩ := Option.map_eq_some_iff.mp h
  cases hq
  have hall : ([c] ++ (r.put p (r.content p).spent).captures).Perm ([] ++ r.captures) :=
    captures_of_payloads (payloads_spent hheld) (by rw [running_put, released_put])
  refine ⟨?_, nofun, made_put r p _, ?_, ?_⟩
  · rw [Option.toList_none, List.append_nil]
    refine List.Perm.trans ?_ hall
    rw [captures, captures, running_put]
    exact List.perm_middle
  · exact ⟨[], (released_put r p _).symm⟩
  · intro d hd
    rw [released_put]
    exact List.mem_cons_of_mem c hd

/-- The captures of the innermost call are released at its end. -/
theorem keeps_finish (r : Rack n) : Keeps r r.finish none := by
  unfold finish
  cases h : r.running with
  | nil => exact .refl r
  | cons c rest =>
    have hperm : (rest ++ c :: r.released).Perm (r.running ++ r.released) := by
      rw [h]
      exact List.perm_middle
    refine ⟨?_, nofun, rfl, List.suffix_cons _ _, fun d hd => hperm.mem_iff.mpr hd⟩
    rw [Option.toList_none, List.append_nil]
    exact hperm.append_left (payloads r.shots)

/-! ### Along a history -/

/-- Of all the callables that were made and invoked so far: each is in one place, each has a number
of its own, and those that were invoked are no longer held, and were invoked once. -/
structure IsOwned (made invoked : List Callable) (r : Rack n) : Prop where
  placed : r.captures.Perm made
  numbered : made.map (·.serial) = List.range r.made
  spent : ∀ c ∈ invoked, c ∈ r.running ++ r.released
  once : (invoked.map (·.serial)).Nodup

namespace IsOwned

variable {made invoked : List Callable}

theorem start : IsOwned [] [] ({} : Rack n) := by
  refine ⟨?_, rfl, nofun, List.nodup_nil⟩
  have hnone : payloads ({} : Rack n).shots = [] := by
    simp [shots, payloads]
  rw [captures, hnone]
  rfl

/-- The captures have numbers of their own. -/
theorem nodup (h : IsOwned made invoked r) : (r.captures.map (·.serial)).Nodup := by
  have hperm := h.placed.map (·.serial)
  rw [h.numbered] at hperm
  exact hperm.nodup_iff.mpr List.nodup_range

theorem keeps (h : IsOwned made invoked r) {c : Option Callable} (hkeeps : Keeps r q c) :
    IsOwned (made ++ c.toList) invoked q := by
  refine ⟨hkeeps.captures.trans (h.placed.append_right _), ?_,
    fun d hd => hkeeps.spent d (h.spent d hd), h.once⟩
  rw [List.map_append, h.numbered, hkeeps.count]
  cases c with
  | none => simp
  | some c =>
    have hserial := hkeeps.serial c rfl
    simp [hserial, List.range_succ]

/-- What is invoked was held until then, so it was not invoked before. -/
theorem invokes (h : IsOwned made invoked r) {p : Place n} {c : Callable}
    (hbegin : r.begin? p = some (c, q)) : IsOwned made (invoked ++ [c]) q := by
  have hkept := h.keeps (keeps_begin? hbegin)
  rw [Option.toList_none, List.append_nil] at hkept
  have htakes := takes_of_begin? hbegin
  have hfresh : c.serial ∉ invoked.map (·.serial) := by
    intro hmem
    obtain ⟨d, hd, hserial⟩ := List.mem_map.mp hmem
    have hnodup := h.nodup
    rw [captures, List.map_append, List.nodup_append] at hnodup
    refine hnodup.2.2 c.serial ?_ d.serial ?_ hserial.symm
    · exact List.mem_map_of_mem (mem_payloads htakes.held)
    · exact List.mem_map_of_mem (h.spent d hd)
  refine ⟨hkept.placed, hkept.numbered, ?_, ?_⟩
  · intro d hd
    rcases List.mem_append.mp hd with hold | hnew
    · exact hkept.spent d hold
    · rw [List.mem_singleton.mp hnew, htakes.running]
      exact List.mem_cons_self
  · rw [List.map_append, List.map_singleton]
    exact (List.nodup_cons.mpr ⟨hfresh, h.once⟩).perm (List.perm_append_singleton _ _).symm

end IsOwned

end Rack

end Dialogue
