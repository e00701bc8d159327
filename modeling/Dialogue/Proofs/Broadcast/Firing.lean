/-
What a signal runs, and when.

A signal hands out its listeners once, when it first fires, and it hands out at once whatever is
registered on it afterwards.  What was handed out stays on the agenda until it runs, and nothing
takes it off in between: a release finds no registration any more, and another firing finds none to
hand out.  So what a signal ran, and what it still has to run, is what was connected when it first
fired and what was registered later, each once.  The order in which listeners are gone through is
not in this account.
-/
import Dialogue.Proofs.Broadcast.Agenda

namespace Dialogue.Broadcast

namespace Mark

def isFired : Mark → Bool
  | fired => true
  | _ => false

def registered? : Mark → Option (Nat × Listener Callback)
  | registered id l => some (id, l)
  | _ => none

def late? : Mark → Option (Listener Callback)
  | late l => some l
  | _ => none

def ran? : Mark → Option (Listener Callback)
  | ran l => some l
  | _ => none

/-- What a mark does to the registrations of an armed signal. -/
def replay (slots : List (Nat × Listener Callback)) : Mark → List (Nat × Listener Callback)
  | registered id l => slots ++ [(id, l)]
  | released id => slots.filter (·.1 != id)
  | _ => slots

end Mark

/-- The registrations that were made and not released since. -/
def connected (h : List Mark) : List (Nat × Listener Callback) :=
  h.foldl Mark.replay []

/-- All registrations that were made, with their numbers. -/
def registrations (h : List Mark) : List (Nat × Listener Callback) :=
  h.filterMap Mark.registered?

/-- The listeners that were registered on the fired signal. -/
def latecomers (h : List Mark) : List (Listener Callback) :=
  h.filterMap Mark.late?

/-- The listeners that ran. -/
def runs (h : List Mark) : List (Listener Callback) :=
  h.filterMap Mark.ran?

/-- What happened before the signal first fired. -/
def untilFired (h : List Mark) : List Mark :=
  h.takeWhile fun m => !m.isFired

/-- The listeners that were connected when the signal first fired. -/
def audience (h : List Mark) : List (Listener Callback) :=
  (connected (untilFired h)).map (·.2)

/--
A signal runs what is connected when it first fires and what is registered later, each once.

The history `h` is all that happened to a signal, and `due` are its listeners that are still to run.
-/
structure IsBroadcast (h : List Mark) (due : List (Listener Callback)) : Prop where
  /-- Before it fires nothing runs. -/
  silent : .fired ∉ h → runs h = [] ∧ latecomers h = [] ∧ due = []
  /-- Then everything that was connected is to run, and whoever comes later, and nothing else. -/
  once : .fired ∈ h → (runs h ++ due).Perm (audience h ++ latecomers h)
  /-- Registrations have numbers of their own. -/
  numbered : ∃ n, (registrations h).map (·.1) = List.range n
  /-- None is made once the signal fired. -/
  closed : .fired ∈ h → registrations h = registrations (untilFired h)

/-! ### Histories, mark by mark -/

theorem connected_concat (h : List Mark) (m : Mark) :
    connected (h ++ [m]) = m.replay (connected h) := by
  rw [connected, List.foldl_append]
  rfl

private theorem filterMap_concat {β γ : Type} (f : β → Option γ) (h : List β) (m : β) :
    (h ++ [m]).filterMap f = h.filterMap f ++ (f m).toList := by
  rw [List.filterMap_append]
  cases hf : f m <;> simp [hf]

theorem registrations_concat (h : List Mark) (m : Mark) :
    registrations (h ++ [m]) = registrations h ++ m.registered?.toList :=
  filterMap_concat _ h m

theorem latecomers_concat (h : List Mark) (m : Mark) :
    latecomers (h ++ [m]) = latecomers h ++ m.late?.toList :=
  filterMap_concat _ h m

theorem runs_concat (h : List Mark) (m : Mark) : runs (h ++ [m]) = runs h ++ m.ran?.toList :=
  filterMap_concat _ h m

theorem untilFired_append {h : List Mark} (hfired : .fired ∉ h) (rest : List Mark) :
    untilFired (h ++ rest) = h ++ untilFired rest := by
  refine List.takeWhile_append_of_pos ?_
  intro m hm
  cases m with
  | fired => exact absurd hm hfired
  | _ => rfl

/-- Once it fired, nothing that happens came before. -/
theorem untilFired_of_fired {h : List Mark} (hfired : .fired ∈ h) (m : Mark) :
    untilFired (h ++ [m]) = untilFired h := by
  obtain ⟨before, after, rfl, hbefore⟩ := List.eq_append_cons_of_mem hfired
  rw [List.append_assoc, untilFired_append hbefore, untilFired_append hbefore]
  rfl

/-! ### The account -/

/-- How a signal stands after its history. -/
inductive Stands (h : List Mark) : Signal (Listener Callback) → List (Listener Callback) → Prop
  | armed {n} (unfired : .fired ∉ h) (silent : runs h = [] ∧ latecomers h = [])
      (numbered : (registrations h).map (·.1) = List.range n) :
      Stands h (.armed n (connected h)) []
  | fired {due} (fired : .fired ∈ h)
      (numbered : ∃ n, (registrations h).map (·.1) = List.range n)
      (closed : registrations h = registrations (untilFired h))
      (once : (runs h ++ due).Perm (audience h ++ latecomers h)) : Stands h .fired due

namespace Stands

variable {h : List Mark} {s t : Signal (Listener Callback)} {due left : List (Listener Callback)}

theorem start : Stands [] .fresh [] :=
  .armed nofun ⟨rfl, rfl⟩ rfl

/-- While a signal is armed, registrations come and go; when it fires, all are handed out. -/
theorem armed_step {n : Nat} {m : Mark} (unfired : .fired ∉ h)
    (silent : runs h = [] ∧ latecomers h = [])
    (numbered : (registrations h).map (·.1) = List.range n)
    (happens : Happens (.armed n (connected h)) [] (some m) t left) : Stands (h ++ [m]) t left := by
  have hmade := registrations_concat h m
  have hruns := runs_concat h m
  have hlate := latecomers_concat h m
  have hconnected := connected_concat h m
  cases happens with
  | @registers id slots l armed =>
    cases armed
    have hslots : connected h ++ [(n, l)] = connected (h ++ [.registered n l]) := hconnected.symm
    rw [hslots]
    refine .armed (by simpa using unfired) ?_ ?_
    · rw [hruns, hlate, silent.1, silent.2]
      exact ⟨rfl, rfl⟩
    · rw [hmade, List.map_append, numbered, List.range_succ]
      rfl
  | @releases id =>
    have hslots : (connected h).filter (·.1 != id) = connected (h ++ [.released id]) :=
      hconnected.symm
    rw [Signal.disconnect, hslots]
    refine .armed (by simpa using unfired) ?_ ?_
    · rw [hruns, hlate, silent.1, silent.2]
      exact ⟨rfl, rfl⟩
    · rw [hmade, List.map_append, numbered]
      exact List.append_nil _
  | @fires handed perm =>
    have huntil : untilFired (h ++ [.fired]) = h := by
      rw [untilFired_append unfired]
      exact List.append_nil h
    refine .fired (by simp) ⟨n, ?_⟩ ?_ ?_
    · rw [hmade, List.map_append, numbered]
      exact List.append_nil _
    · rw [huntil, hmade]
      exact List.append_nil _
    · have hperm : handed.Perm ((connected h).map (·.2)) := perm
      rw [hruns, hlate, audience, huntil, silent.1, silent.2]
      simpa [Mark.ran?, Mark.late?] using hperm
  | late fired => cases fired
  | runs head => cases head

/-- Once it fired, it hands out whoever comes late, and nothing that happens takes a listener
back. -/
theorem fired_step {m : Mark} (fired : .fired ∈ h)
    (numbered : ∃ n, (registrations h).map (·.1) = List.range n)
    (closed : registrations h = registrations (untilFired h))
    (once : (runs h ++ due).Perm (audience h ++ latecomers h))
    (happens : Happens .fired due (some m) t left) : Stands (h ++ [m]) t left := by
  have huntil := untilFired_of_fired fired m
  have haudience : audience (h ++ [m]) = audience h := by rw [audience, audience, huntil]
  have hsame : m.registered? = none → registrations (h ++ [m]) = registrations h := by
    intro hnone
    rw [registrations_concat, hnone]
    exact List.append_nil _
  have again : m.registered? = none →
      (runs (h ++ [m]) ++ left).Perm (audience h ++ latecomers (h ++ [m])) →
      Stands (h ++ [m]) .fired left := by
    intro hnone hperm
    refine .fired (List.mem_append_left _ fired) ?_ ?_ ?_
    · rw [hsame hnone]
      exact numbered
    · rw [hsame hnone, huntil]
      exact closed
    · rw [haudience]
      exact hperm
  have hruns := runs_concat h m
  have hlate := latecomers_concat h m
  cases happens with
  | registers armed => cases armed
  | @releases id =>
    refine again rfl ?_
    rw [hruns, hlate]
    simpa [Mark.ran?, Mark.late?] using once
  | @fires handed perm =>
    have hnone : handed = [] := List.perm_nil.mp perm
    refine again rfl ?_
    rw [hruns, hlate, hnone]
    simpa [Mark.ran?, Mark.late?] using once
  | @late l _ =>
    refine again rfl ?_
    rw [hruns, hlate]
    have hcomes : (runs h ++ l :: due).Perm (l :: (runs h ++ due)) := List.perm_middle
    have hjoins : (l :: (audience h ++ latecomers h)).Perm
        (audience h ++ (latecomers h ++ [l])) := by
      rw [← List.append_assoc]
      exact (List.perm_append_singleton l _).symm
    simpa [Mark.ran?, Mark.late?] using hcomes.trans ((once.cons l).trans hjoins)
  | @runs l rest head =>
    subst head
    refine again rfl ?_
    rw [hruns, hlate]
    simpa [Mark.ran?, Mark.late?] using once

theorem step {m : Option Mark} (hstands : Stands h s due) (happens : Happens s due m t left) :
    Stands (h ++ m.toList) t left := by
  cases m with
  | none =>
    cases happens with
    | rests =>
      rw [Option.toList_none, List.append_nil]
      exact hstands
  | some m =>
    cases hstands with
    | armed unfired silent numbered => exact armed_step unfired silent numbered happens
    | fired fired numbered closed once => exact fired_step fired numbered closed once happens

theorem isBroadcast (hstands : Stands h s due) : IsBroadcast h due := by
  cases hstands with
  | armed unfired silent numbered =>
    exact ⟨fun _ => ⟨silent.1, silent.2, rfl⟩, fun hf => absurd hf unfired, ⟨_, numbered⟩,
      fun hf => absurd hf unfired⟩
  | fired fired numbered closed once =>
    exact ⟨fun hf => absurd fired hf, fun _ => once, numbered, fun _ => closed⟩

theorem isFired_iff (hstands : Stands h s due) : s.isFired = true ↔ .fired ∈ h := by
  cases hstands with
  | armed unfired _ _ => simp [Signal.isFired, unfired]
  | fired fired _ _ _ => simp [Signal.isFired, fired]

end Stands

/-! ### Listeners that come late -/

/-- Whoever is registered on a fired signal runs at once: nothing happens in between, to any
signal. -/
structure IsPrompt (g : List (Nat × Mark)) (agenda : List Task) : Prop where
  next : ∀ before i l c after, g = before ++ (i, .late l) :: c :: after → c = (i, .ran l)
  last : ∀ i l, g.getLast? = some (i, .late l) → agenda.head? = some (.notify i l)

theorem begin_of_late {order : Order} {r : Registry Callback} (hr : r.IsMade) {t : Task} {j : Nat}
    {l : Listener Callback} (h : t.mark? r = some (j, .late l)) :
    (t.begin order r).2.head? = some (.notify j l) := by
  cases ht : t.isNotify with
  | true =>
    cases t with
    | notify i k => cases h
    | _ => cases ht
  | false =>
    have hbegins : Begins order r t _ _ _ := begins hr ht
    rw [h] at hbegins
    generalize hmark : some (j, Mark.late l) = mark at hbegins
    generalize t.begin order r = result at hbegins ⊢
    obtain ⟨q, more⟩ := result
    cases hbegins with
    | rests _ _ => cases hmark
    | creates _ => cases hmark
    | @enrols p i k store _ _ _ _ _ _ =>
      have henrols := enrols p i k store
      rw [← hmark] at henrols
      generalize (p.enrol i k store).1 = q, (p.enrol i k store).2 = more at henrols ⊢
      cases henrols with
      | late _ _ => rfl
    | fires _ _ => cases hmark
    | @releases p hook _ _ _ =>
      cases hook with
      | none => cases hmark
      | some h => cases hmark

/-! ### Along every run -/

namespace Machine

variable {order : Order} {m : Machine}

theorem mark?_of_notify {i : Nat} {l : Listener Callback}
    (h : m.agenda.head? = some (.notify i l)) : m.mark? = some (i, .ran l) := by
  rw [mark?, h]
  rfl

theorem head?_of_late (hm : m.registry.IsMade) {i : Nat} {l : Listener Callback}
    (h : m.mark? = some (i, .late l)) :
    (m.tick order).agenda.head? = some (.notify i l) := by
  obtain ⟨r, agenda⟩ := m
  cases agenda with
  | nil => cases h
  | cons t rest =>
    have hfirst : (t.begin order r).2.head? = some (.notify i l) := begin_of_late hm h
    show ((t.begin order r).2 ++ rest).head? = _
    rw [List.head?_append, hfirst]
    rfl

theorem isMade_after (hm : m.registry.IsMade) (n : Nat) : (m.after order n).registry.IsMade := by
  induction n with
  | zero => exact hm
  | succ n ih => exact isMade_tick ih

theorem isPrompt_after (hm : m.registry.IsMade) (n : Nat) :
    IsPrompt (m.history order n) (m.after order n).agenda := by
  induction n with
  | zero =>
    refine ⟨?_, nofun⟩
    intro before i l c after hg
    simp [history] at hg
  | succ n ih =>
    obtain ⟨hnext, hlast⟩ := ih
    cases hc : (m.after order n).mark? with
    | none =>
      have hsame : m.history order (n + 1) = m.history order n := by
        rw [history, hc]
        exact List.append_nil _
      rw [hsame]
      refine ⟨hnext, ?_⟩
      intro i l hg
      rw [mark?_of_notify (hlast i l hg)] at hc
      cases hc
    | some c =>
      have hgrows : m.history order (n + 1) = m.history order n ++ [c] := by
        rw [history, hc]
        rfl
      rw [hgrows]
      refine ⟨?_, ?_⟩
      · intro before i l d after hg
        rcases List.eq_nil_or_concat after with rfl | ⟨rest, e, rfl⟩
        · have hsplit : m.history order n ++ [c] = (before ++ [(i, .late l)]) ++ [d] := by
            rw [hg]
            simp
          obtain ⟨hinit, hend⟩ := List.append_inj' hsplit rfl
          have hnotify := hlast i l (by rw [hinit, List.getLast?_concat])
          rw [mark?_of_notify hnotify] at hc
          cases hc
          exact (List.cons.inj hend).1.symm
        · have hsplit : m.history order n ++ [c]
              = (before ++ (i, .late l) :: d :: rest) ++ [e] := by
            rw [hg]
            simp
          exact hnext before i l d rest (List.append_inj' hsplit rfl).1
      · intro i l hg
        rw [List.getLast?_concat] at hg
        cases hg
        exact head?_of_late (isMade_after hm n) hc

/-- The history of a signal says how it stands, and whom it still has to run. -/
theorem stands_after (horder : ∀ i ls, (order i ls).Perm ls) (hm : m.registry.IsMade)
    (hstart : ∀ i, Stands [] (m.registry.signal i) (due i m.agenda)) (n i : Nat) :
    Stands (m.marks order n i) ((m.after order n).registry.signal i)
      (due i (m.after order n).agenda) := by
  induction n with
  | zero => exact hstart i
  | succ n ih =>
    rw [marks_succ]
    exact ih.step (happens (isMade_after hm n) horder i)

/-! ### The order does not matter -/

theorem marks_add (m : Machine) (k n i : Nat) :
    m.marks order (k + n) i = m.marks order k i ++ (m.after order k).marks order n i := by
  rw [marks, history_add, List.filterMap_append]
  rfl

theorem fired_of_le {k n i : Nat} (h : .fired ∈ m.marks order k i) (hle : k ≤ n) :
    .fired ∈ m.marks order n i := by
  obtain ⟨rest, rfl⟩ := Nat.exists_eq_add_of_le hle
  rw [marks_add]
  exact List.mem_append_left _ h

/-- A signal that fired did so in some tick, and until then it had not. -/
theorem firing_of_fired {n i : Nat} (h : .fired ∈ m.marks order n i) :
    ∃ k, .fired ∉ m.marks order k i ∧ (m.after order k).mark?.bind (on? i) = some .fired ∧
      untilFired (m.marks order n i) = m.marks order k i := by
  induction n with
  | zero => cases h
  | succ n ih =>
    rw [marks_succ] at h ⊢
    by_cases hbefore : .fired ∈ m.marks order n i
    · obtain ⟨k, hunfired, hfires, huntil⟩ := ih hbefore
      refine ⟨k, hunfired, hfires, ?_⟩
      cases (m.after order n).mark?.bind (on? i) with
      | none => rwa [Option.toList_none, List.append_nil]
      | some c => rwa [Option.toList_some, untilFired_of_fired hbefore]
    · rcases List.mem_append.mp h with hold | hnew
      · exact absurd hold hbefore
      · have hfires : (m.after order n).mark?.bind (on? i) = some .fired := by simpa using hnew
        refine ⟨n, hbefore, hfires, ?_⟩
        rw [hfires, Option.toList_some, untilFired_append hbefore]
        exact List.append_nil _

variable {other : Order} {i : Nat}

/-- As long as a signal does not fire, the order in which it is gone through is not asked for. -/
theorem tick_of_agree (hagree : ∀ j, j ≠ i → other j = order j)
    (h : m.mark?.bind (on? i) ≠ some .fired) : m.tick other = m.tick order := by
  obtain ⟨r, agenda⟩ := m
  cases agenda with
  | nil => rfl
  | cons t rest =>
    have hsame : t.begin other r = t.begin order r := by
      cases t with
      | step s =>
        cases s with
        | fire s =>
          simp only [Task.begin, Step.begin]
          cases hs : r.sources.get? s with
          | none => rfl
          | some j =>
            have hj : j ≠ i := by
              rintro rfl
              refine h ?_
              simp [mark?, Task.mark?, Step.mark?, hs, on?]
            dsimp only
            rw [hagree j hj]
        | _ => rfl
      | notify j l => cases l <;> rfl
      | hook conn hook => rfl
      | future f kept => rfl
    simp only [tick, hsame]

theorem after_of_agree (hagree : ∀ j, j ≠ i → other j = order j) {n : Nat}
    (h : .fired ∉ m.marks order n i) :
    m.after other n = m.after order n ∧ m.history other n = m.history order n := by
  induction n with
  | zero => exact ⟨rfl, rfl⟩
  | succ n ih =>
    rw [marks_succ] at h
    obtain ⟨hafter, hhistory⟩ := ih (fun hmem => h (List.mem_append_left _ hmem))
    have hquiet : (m.after order n).mark?.bind (on? i) ≠ some .fired := by
      intro hfires
      refine h (List.mem_append_right _ ?_)
      rw [hfires]
      exact List.mem_cons_self
    refine ⟨?_, ?_⟩
    · show (m.after other n).tick other = (m.after order n).tick order
      rw [hafter, tick_of_agree hagree hquiet]
    · rw [history, history, hafter, hhistory]

/-- In whichever order a signal is gone through, the same listeners are connected when it fires. -/
theorem audience_of_agree (hagree : ∀ j, j ≠ i → other j = order j) {n k : Nat}
    (h : .fired ∈ m.marks order n i) (h' : .fired ∈ m.marks other k i) :
    audience (m.marks other k i) = audience (m.marks order n i) := by
  obtain ⟨a, hunfired, hfires, huntil⟩ := firing_of_fired h
  obtain ⟨b, hunfired', hfires', huntil'⟩ := firing_of_fired h'
  obtain ⟨hafter, hhistory⟩ := after_of_agree hagree hunfired
  have hmarks : m.marks other a i = m.marks order a i := by rw [marks, marks, hhistory]
  -- it fires in the same tick
  have hfired : .fired ∈ m.marks other (a + 1) i := by
    rw [marks_succ, hafter, hfires]
    exact List.mem_append_right _ List.mem_cons_self
  have hfired' : .fired ∈ m.marks other (b + 1) i := by
    rw [marks_succ, hfires']
    exact List.mem_append_right _ List.mem_cons_self
  have hab : a = b := by
    rcases Nat.lt_trichotomy a b with hlt | heq | hgt
    · exact absurd (fired_of_le hfired hlt) hunfired'
    · exact heq
    · have hearly := fired_of_le hfired' hgt
      rw [hmarks] at hearly
      exact absurd hearly hunfired
  rw [audience, audience, huntil, huntil', ← hab, hmarks]

end Machine

/-- Two histories with the same audience differ in what runs only by who comes late. -/
theorem IsBroadcast.same_but_late {h g : List Mark} {due left : List (Listener Callback)}
    (hh : IsBroadcast h due) (hg : IsBroadcast g left) (hfired : .fired ∈ h)
    (gfired : .fired ∈ g) (haudience : audience g = audience h) :
    ((runs h ++ due) ++ latecomers g).Perm ((runs g ++ left) ++ latecomers h) := by
  have hfirst := (hh.once hfired).append_right (latecomers g)
  have hsecond := (hg.once gfired).append_right (latecomers h)
  rw [haudience] at hsecond
  refine hfirst.trans (.trans ?_ hsecond.symm)
  rw [List.append_assoc, List.append_assoc]
  exact List.perm_append_comm.append_left _

end Dialogue.Broadcast
