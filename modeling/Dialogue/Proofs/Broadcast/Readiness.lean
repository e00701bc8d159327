/-
When a future is ready.

A future is ready when its channel was told, and its channel is told when its listener runs.  Along
a run nobody who waits is forgotten: whoever still waits has its listener on an armed signal, or was
told, or is about to be, unless there is no signal to wait for.  `Awaits` says so, and it is kept
because no hook but the future's own lets go of its listener, however sources, tokens and other
connections come and go.

What a program knows of a future is the token that it was made from and the answers that it had;
`lifeOf` reads both off the run.  The word `finished` in a stored future, and its channel, are
checked against it.
-/
import Dialogue.Proofs.Broadcast.Channels
import Dialogue.Proofs.Broadcast.Plays

namespace Dialogue.Broadcast

variable {r p q : Registry Callback} {order : Order}

/-! ### The life of a future -/

/-- What is known of a future: the signal for which it was made, if any, and whether a poll found it
ready. -/
structure Life where
  source : Option Nat
  wasReady : Bool := false

/-- What a poll of a future learns, if there is such a future. -/
def Registry.polled? (r : Registry Callback) (f : Int) : Option Polled :=
  (r.futures.get? f).map fun future => (r.pollFuture f future).1

/-- What is known of the future with a name once a task was done. -/
def Life.next (r : Registry Callback) (f : Int) (life : Option Life) : Task → Option Life
  | .step (.stopped t g) =>
    match r.tokens.get? t with
    | none => life
    | some source => if g = f then some { source } else life
  | .step (.poll g) =>
    if g = f ∧ r.polled? f = some .ready then life.map fun l => { l with wasReady := true }
    else life
  | _ => life

namespace Machine

/-- What is known of the future with a name after a number of ticks. -/
def lifeOf (order : Order) (m : Machine) (f : Int) : Nat → Option Life
  | 0 => none
  | n + 1 =>
    match (m.after order n).agenda with
    | [] => m.lifeOf order f n
    | t :: _ => Life.next (m.after order n).registry f (m.lifeOf order f n) t

end Machine

/-- Where a future that is stored after a task comes from. -/
inductive Kept (r : Registry Callback) (t : Task) (f : Int) (k : Future) : Prop
  | stored (task : t = .future f k)
  | stays (stored : r.futures.get? f = some k) (task : ∀ other, t ≠ .future f other)
      (poll : t = .step (.poll f) → r.polled? f ≠ some .ready)
  | finishes {old} (task : t = .step (.poll f)) (stored : r.futures.get? f = some old)
      (ready : r.polled? f = some .ready) (told : old.channel ∈ r.told)
      (future : k = { old with hook := none, finished := true })

/-- The name of the future that a task polls or stores. -/
def Task.named? : Task → Option Int
  | .step (.poll f) | .future f _ => some f
  | _ => none

/-- A task that has to do with no future leaves it as it was. -/
theorem Kept.unnamed {t : Task} {f : Int} {k : Future} (stored : r.futures.get? f = some k)
    (unnamed : t.named? = none) : Kept r t f k := by
  refine .stays stored ?_ ?_
  · rintro other rfl
    cases unnamed
  · rintro rfl
    cases unnamed

theorem futures_unhook (r : Registry Callback) (hook : Hook) :
    (r.unhook hook).futures = r.futures := by
  cases hook <;> rfl

theorem futures_enrol (r : Registry Callback) (i : Option Nat) (l : Listener Callback)
    (store : Hook → Task) : (r.enrol i l store).1.futures = r.futures := by
  have henrols := enrols r i l store
  generalize r.enrols? i l = mark at henrols
  generalize r.enrol i l store = result at henrols ⊢
  obtain ⟨q, more⟩ := result
  cases henrols with
  | registers _ registry => rw [registry]; rfl
  | late _ registry => rw [registry]
  | drops registry => rw [registry]

theorem kept_of_poll {f g : Int} {k future : Future} (hg : r.futures.get? g = some future)
    (h : (r.pollFuture g future).2.futures.get? f = some k) : Kept r (.step (.poll g)) f k := by
  have hpolled : r.polled? g = some (r.pollFuture g future).1 := by simp [Registry.polled?, hg]
  have hstays : (r.pollFuture g future).2 = r → (r.pollFuture g future).1 ≠ .ready →
      Kept r (.step (.poll g)) f k := by
    intro hsame hanswer
    rw [hsame] at h
    refine .stays h nofun ?_
    rintro ⟨⟩ hready
    rw [hpolled] at hready
    exact hanswer (Option.some.inj hready)
  cases hfinished : future.finished with
  | true =>
    exact hstays (by simp [Registry.pollFuture, hfinished])
      (by simp [Registry.pollFuture, hfinished])
  | false =>
    by_cases htold : future.channel ∈ r.told
    · have hresult : r.pollFuture g future = (.ready, Registry.unhook { r with
          futures := r.futures.put g { future with hook := none, finished := true } }
          future.hook) := by
        simp [Registry.pollFuture, hfinished, htold]
      rw [hresult, futures_unhook, Table.get?_put] at h
      rw [hresult] at hpolled
      split at h
      · next heq =>
        subst heq
        cases h
        exact .finishes rfl hg hpolled htold rfl
      · next hne =>
        refine .stays h nofun ?_
        rintro ⟨⟩
        exact absurd rfl hne
    · exact hstays (by simp [Registry.pollFuture, hfinished, htold])
        (by simp [Registry.pollFuture, hfinished, htold])

theorem kept_of_step {s : Step} {f : Int} {k : Future}
    (h : (s.begin order r).1.futures.get? f = some k) : Kept r (.step s) f k := by
  cases s with
  | source s => exact .unnamed h rfl
  | dropSource s =>
    simp only [Step.begin] at h
    split at h <;> exact .unnamed h rfl
  | token s t =>
    simp only [Step.begin] at h
    split at h <;> exact .unnamed h rfl
  | defaultToken t => exact .unnamed h rfl
  | cloneToken t target =>
    simp only [Step.begin] at h
    split at h <;> exact .unnamed h rfl
  | dropToken t =>
    simp only [Step.begin] at h
    split at h <;> exact .unnamed h rfl
  | register s conn name body =>
    simp only [Step.begin] at h
    split at h
    · exact .unnamed h rfl
    · rw [futures_enrol] at h
      exact .unnamed h rfl
  | registerToken t conn name body =>
    simp only [Step.begin] at h
    split at h
    · exact .unnamed h rfl
    · rw [futures_enrol] at h
      exact .unnamed h rfl
  | fire s =>
    simp only [Step.begin] at h
    split at h <;> exact .unnamed h rfl
  | disconnect conn =>
    simp only [Step.begin, Registry.disconnect] at h
    split at h
    · exact .unnamed h rfl
    · rw [futures_unhook] at h
      exact .unnamed h rfl
  | dropConn conn =>
    simp only [Step.begin, Registry.dropHook] at h
    split at h
    · exact .unnamed h rfl
    · rw [futures_unhook] at h
      exact .unnamed h rfl
  | stopped t g =>
    simp only [Step.begin] at h
    split at h
    · exact .unnamed h rfl
    · rw [futures_enrol] at h
      exact .unnamed h rfl
  | poll g =>
    simp only [Step.begin] at h
    split at h
    · next hnone =>
      refine .stays h ?_ ?_
      · rintro other ⟨⟩
      · rintro ⟨⟩
        rw [hnone] at h
        cases h
    · next future hg => exact kept_of_poll hg h
  | dropFuture g =>
    simp only [Step.begin, Registry.dropFuture] at h
    split at h
    · exact .unnamed h rfl
    · rw [futures_unhook, Table.get?_erase] at h
      split at h
      · cases h
      · exact .unnamed h rfl
  | panic message => exact .unnamed h rfl
  | unknown => exact .unnamed h rfl

theorem kept_of_begin {t : Task} {f : Int} {k : Future}
    (h : (t.begin order r).1.futures.get? f = some k) : Kept r t f k := by
  cases t with
  | step s => exact kept_of_step h
  | notify i l => cases l <;> exact .unnamed h rfl
  | hook conn hook =>
    rw [Task.begin, Registry.storeHook, futures_unhook] at h
    exact .unnamed h rfl
  | future g kept =>
    rw [Task.begin, Registry.storeFuture, futures_unhook, Table.get?_put] at h
    split at h
    · next heq =>
      cases h
      exact .stored (by rw [heq])
    · next hne =>
      refine .stays h ?_ ?_
      · rintro other ⟨⟩
        exact hne rfl
      · rintro ⟨⟩

/-! ### A life describes what is stored -/

/-- Who waits on a channel for the signal that it was opened for, and was ready only if it was
told. -/
def Describes (o : List (Option Nat)) (told : List Nat) (life : Option Life) (k : Future) : Prop :=
  ∃ l, life = some l ∧ o[k.channel]? = some l.source ∧ k.finished = l.wasReady ∧
    (k.finished = true → k.channel ∈ told)

/-- A future that was made is stored at once, or when it was told. -/
inductive Storing (o : List (Option Nat)) (told : List Nat) (lives : Int → Option Life) :
    List Task → Prop
  | nothing {agenda} (quiet : ∀ f k, .future f k ∉ agenda) : Storing o told lives agenda
  | now {f k rest} (life : Describes o told (lives f) k) (quiet : ∀ f k, .future f k ∉ rest) :
      Storing o told lives (.future f k :: rest)
  | later {i c f k rest} (life : Describes o told (lives f) k)
      (quiet : ∀ f k, .future f k ∉ rest) :
      Storing o told lives (.notify i (.future c) :: .future f k :: rest)

/-- The futures are as their lives say, but for those that are being replaced. -/
structure Known (o : List (Option Nat)) (lives : Int → Option Life) (m : Machine) : Prop where
  storing : Storing o m.registry.told lives m.agenda
  stored : ∀ f k, m.registry.futures.get? f = some k →
    (∀ other, .future f other ∉ m.agenda) → Describes o m.registry.told (lives f) k

theorem Describes.mono {o : List (Option Nat)} {told more : List Nat} {life : Option Life}
    {k : Future} (h : Describes o told life k) (x : List (Option Nat))
    (hmore : ∀ c ∈ told, c ∈ more) : Describes (o ++ x) more life k := by
  obtain ⟨l, hlife, horigin, hfinished, htold⟩ := h
  exact ⟨l, hlife, getElem?_of_opened horigin x, hfinished, fun h => hmore _ (htold h)⟩

theorem told_of_wires {t : Task} {more : List Task} (hw : Wires order r t q more) :
    ∀ c ∈ r.told, c ∈ q.told := by
  intro c hc
  cases hw with
  | rests _ _ kept _ _ _ => exact kept.told ▸ hc
  | tells _ registry =>
    rw [registry]
    exact List.mem_cons_of_mem _ hc
  | registers _ _ kept _ _ => exact kept.told ▸ hc
  | late _ _ kept _ _ => exact kept.told ▸ hc
  | drops _ kept _ _ => exact kept.told ▸ hc
  | fires _ _ _ registry =>
    rw [registry]
    exact hc
  | releases _ kept _ _ => exact kept.told ▸ hc
  | stores _ _ kept => exact kept.told ▸ hc

/-- Whatever becomes of a listener, the hook for it is to be stored. -/
theorem store_mem_enrol (r : Registry Callback) (i : Option Nat) (l : Listener Callback)
    (store : Hook → Task) : ∃ hook, store hook ∈ (r.enrol i l store).2 := by
  have henrols := enrols r i l store
  generalize r.enrols? i l = mark at henrols
  generalize r.enrol i l store = result at henrols ⊢
  obtain ⟨q, more⟩ := result
  cases henrols with
  | registers _ _ => exact ⟨_, List.mem_cons_self⟩
  | late _ _ => exact ⟨_, List.mem_cons_of_mem _ List.mem_cons_self⟩
  | drops _ => exact ⟨_, List.mem_cons_self⟩

/-- Where no future is made under a name, and none of that name is found ready, its life goes on. -/
theorem life_next_of_quiet {t : Task} {f : Int} {life : Option Life}
    (quiet : ∀ other, .future f other ∉ (t.begin order r).2)
    (poll : t = .step (.poll f) → r.polled? f ≠ some .ready) : Life.next r f life t = life := by
  cases t with
  | step s =>
    cases s with
    | stopped token g =>
      simp only [Life.next]
      cases htoken : r.tokens.get? token with
      | none => rfl
      | some i =>
        dsimp only
        refine if_neg ?_
        rintro rfl
        have hbegin : (Task.begin order r (.step (.stopped token g))).2
            = (Registry.enrol { r with channels := r.channels + 1 } i
                (.future r.channels) fun hook =>
                .future g { hook, channel := r.channels }).2 := by
          simp only [Task.begin, Step.begin, htoken]
        obtain ⟨hook, hmem⟩ := store_mem_enrol { r with channels := r.channels + 1 } i
          (.future r.channels) fun hook => .future g { hook, channel := r.channels }
        rw [← hbegin] at hmem
        exact quiet _ hmem
    | poll g =>
      simp only [Life.next]
      refine if_neg ?_
      rintro ⟨rfl, hready⟩
      exact poll rfl hready
    | _ => rfl
  | _ => rfl

section

variable {o : List (Option Nat)} {lives : Int → Option Life} {t : Task} {rest more : List Task}

/-- A future that is made is described by its new life. -/
theorem describes_made {token f : Int} {i : Option Nat} {told : List Nat} (hook : Hook)
    (htask : t = .step (.stopped token f)) (htoken : r.tokens.get? token = some i)
    (ho : r.channels = o.length) :
    Describes (o ++ (t.opens? r).toList) told (Life.next r f (lives f) t)
      { hook, channel := r.channels } := by
  subst htask
  have hopens : Task.opens? r (.step (.stopped token f)) = some i := htoken
  refine ⟨{ source := i }, ?_, ?_, rfl, nofun⟩
  · simp only [Life.next, htoken, if_true]
  · rw [hopens, ho, Option.toList_some]
    simp

theorem Storing.step (h : Storing o r.told lives (t :: rest)) (ho : r.channels = o.length)
    (hw : Wires order r t q (t.begin order r).2) :
    Storing (o ++ (t.opens? r).toList) q.told (fun f => Life.next r f (lives f) t)
      ((t.begin order r).2 ++ rest) := by
  have htold := told_of_wires hw
  cases h with
  | now life quiet => exact .nothing quiet
  | later life quiet => exact .now (life.mono _ htold) quiet
  | nothing quiet =>
    have hrest : ∀ f k, .future f k ∉ rest :=
      fun f k hmem => quiet f k (List.mem_cons_of_mem _ hmem)
    have hnothing : ∀ {more : List Task}, (∀ f k, .future f k ∉ more) →
        Storing (o ++ (t.opens? r).toList) q.told (fun f => Life.next r f (lives f) t)
            (more ++ rest) := by
      intro more hmore
      refine .nothing fun f k hmem => ?_
      rcases List.mem_append.mp hmem with hnew | hold
      · exact hmore f k hnew
      · exact hrest f k hold
    generalize (t.begin order r).2 = more at hw ⊢
    cases hw with
    | rests _ _ _ _ _ steps =>
      refine hnothing fun f k hmem => ?_
      obtain ⟨s, heq⟩ := steps _ hmem
      cases heq
    | tells _ _ => exact hnothing nofun
    | registers _ _ _ _ channel =>
      cases channel with
      | callback _ _ => exact hnothing (by simp)
      | future task held _ => exact .now (describes_made _ task held ho) hrest
    | late _ _ _ _ channel =>
      cases channel with
      | callback _ _ => exact hnothing (by simp)
      | future task held _ => exact .later (describes_made _ task held ho) hrest
    | drops _ _ _ channel =>
      cases channel with
      | callback _ _ => exact hnothing (by simp)
      | future task held _ => exact .now (describes_made _ task held ho) hrest
    | fires _ _ _ _ =>
      refine hnothing fun f k hmem => ?_
      obtain ⟨l, -, heq⟩ := List.mem_map.mp hmem
      cases heq
    | releases _ _ _ _ => exact hnothing nofun
    | stores _ _ _ => exact hnothing nofun

/-- While a step is next, no future is about to be stored. -/
theorem Storing.quiet_of_step {told : List Nat} {agenda : List Task}
    (h : Storing o told lives agenda) {s : Step} (hhead : agenda.head? = some (.step s)) :
    ∀ f k, .future f k ∉ agenda := by
  cases h with
  | nothing quiet => exact quiet
  | now _ _ => cases hhead
  | later _ _ => cases hhead

theorem Known.next (h : Known o lives ⟨r, t :: rest⟩) (hr : r.IsMade)
    (ho : r.channels = o.length) :
    Known (o ++ (t.opens? r).toList) (fun f => Life.next r f (lives f) t)
      ⟨(t.begin order r).1, (t.begin order r).2 ++ rest⟩ := by
  have hw : Wires order r t _ _ := wires hr t
  have htold := told_of_wires hw
  refine ⟨h.storing.step ho hw, ?_⟩
  intro f k hk hquiet
  have hnew : ∀ other, .future f other ∉ (t.begin order r).2 :=
    fun other hmem => hquiet other (List.mem_append_left _ hmem)
  have hrest : ∀ other, .future f other ∉ rest :=
    fun other hmem => hquiet other (List.mem_append_right _ hmem)
  cases kept_of_begin hk with
  | stored task =>
    subst task
    cases h.storing with
    | nothing quiet => exact absurd List.mem_cons_self (quiet f k)
    | now life _ => exact life.mono _ htold
  | stays stored task poll =>
    have hdescribes := h.stored f k stored (by
      intro other hmem
      rcases List.mem_cons.mp hmem with heq | hmem
      · exact task other heq.symm
      · exact hrest other hmem)
    rw [life_next_of_quiet hnew poll]
    exact hdescribes.mono _ htold
  | @finishes old task stored ready told future =>
    subst task
    obtain ⟨l, hlife, horigin, -, -⟩ := h.stored f old stored (by
      intro other hmem
      rcases List.mem_cons.mp hmem with heq | hmem
      · cases heq
      · exact hrest other hmem)
    subst future
    refine ⟨{ l with wasReady := true }, ?_, getElem?_of_opened horigin _, rfl,
      fun _ => htold _ told⟩
    simp only [Life.next, ready, and_self, if_true, hlife, Option.map_some]

end

/-! ### Nobody who waits is forgotten -/

/-- A future that is stored and was not ready, or is about to be stored. -/
inductive IsKept (m : Machine) (k : Future) : Prop
  | stored {f} (stored : m.registry.futures.get? f = some k) (unfinished : k.finished = false)
  | due {f} (due : .future f k ∈ m.agenda)

/-- What a future waits for, and how it is to hear of it. -/
inductive Awaits (o : List (Option Nat)) (m : Machine) (k : Future) : Prop
  /-- There is no signal to wait for. -/
  | lacks (origin : o[k.channel]? = some none)
  | listens {i id} (origin : o[k.channel]? = some (some i)) (hook : k.hook = some (i, id))
      (slot : (id, .future k.channel) ∈ (m.registry.signal i).slots)
  /-- The signal fired, and the future was told, or is about to be. -/
  | told {i} (origin : o[k.channel]? = some (some i)) (fired : (m.registry.signal i).isFired = true)
      (heard : k.channel ∈ m.registry.told ∨ .notify i (.future k.channel) ∈ m.agenda)

section

variable {o : List (Option Nat)} {t : Task} {rest more : List Task} {k : Future}

/-- A future that is kept was kept before, or it was made by this task. -/
theorem isKept_of_begin (h : IsKept ⟨(t.begin order r).1, (t.begin order r).2 ++ rest⟩ k) :
    IsKept ⟨r, t :: rest⟩ k ∨ ∃ f, .future f k ∈ (t.begin order r).2 := by
  cases h with
  | stored stored unfinished =>
    cases kept_of_begin stored with
    | stored task => exact .inl (.due (List.mem_cons.mpr (.inl task.symm)))
    | stays stored _ _ => exact .inl (.stored stored unfinished)
    | finishes _ _ _ _ future =>
      rw [future] at unfinished
      cases unfinished
  | due due =>
    rcases List.mem_append.mp due with hnew | hold
    · exact .inr ⟨_, hnew⟩
    · exact .inl (.due (List.mem_cons_of_mem _ hold))

/-- The hook of a future that is kept is held. -/
theorem IsKept.holds {m : Machine} (hd : Distinct m) (h : IsKept m k) {x : Nat × Nat}
    (hook : k.hook = some x) : ∃ a, m.holds a = some x := by
  cases h with
  | @stored f stored _ =>
    refine ⟨some (.future f), ?_⟩
    show (m.registry.futures.get? f).bind (·.hook) = some x
    rw [stored]
    exact hook
  | @due f due =>
    refine ⟨none, ?_⟩
    obtain ⟨r, agenda⟩ := m
    cases agenda with
    | nil => cases due
    | cons t rest =>
      rcases List.mem_cons.mp due with rfl | hrest
      · exact hook
      · have hnone : (Task.future f k).carried = none := hd.tail _ hrest
        rw [show (Task.future f k).carried = k.hook from rfl, hook] at hnone
        cases hnone

/-- Whoever lets go of a registration leaves nobody behind who holds it. -/
theorem Distinct.ne_of_puts (hd : Distinct ⟨r, t :: rest⟩) {h : Holder} {hook : Hook}
    (hputs : Puts r q h hook) (hcarried : ∀ x, hook = some x → t.carried = some x)
    {x : Nat × Nat} (hx : ∃ a, (⟨q, rest⟩ : Machine).holds a = some x) :
    r.hookOf h ≠ some x := by
  intro hlets
  obtain ⟨a, ha⟩ := hx
  have hlets' : (⟨r, t :: rest⟩ : Machine).holds (some h) = some x := hlets
  cases a with
  | none =>
    rw [Machine.holds_none_of_quiet hd.tail] at ha
    cases ha
  | some g =>
    have hg : q.hookOf g = some x := ha
    by_cases hgh : g = h
    · rw [hgh, hputs.own] at hg
      cases hd.unique none (some h) x (hcarried x hg) hlets'
    · rw [hputs.others g hgh] at hg
      cases hd.unique (some g) (some h) x hg hlets'
      exact hgh rfl

/-- A slot stays, or its listener is to run. -/
theorem slot_of_wires (horder : ∀ i ls, (order i ls).Perm ls) (hd : Distinct ⟨r, t :: rest⟩)
    (hw : Wires order r t q more) {i id : Nat} {l : Listener Callback}
    (slot : (id, l) ∈ (r.signal i).slots)
    (hheld : ∃ a, (⟨q, more ++ rest⟩ : Machine).holds a = some (i, id)) :
    (id, l) ∈ (q.signal i).slots ∨ (q.signal i).isFired = true ∧ .notify i l ∈ more := by
  cases hw with
  | rests signal _ _ _ _ _ =>
    rw [signal]
    exact .inl slot
  | tells _ registry =>
    rw [registry]
    exact .inl slot
  | registers armed signal _ _ _ =>
    refine .inl ?_
    rw [signal]
    split
    · next hi =>
      rw [hi, armed] at slot
      exact List.mem_append_left _ slot
    · exact slot
  | late _ signal _ _ _ =>
    rw [signal]
    exact .inl slot
  | drops signal _ _ _ =>
    rw [signal]
    exact .inl slot
  | @fires s j _ held _ registry =>
    have hfire : (r.fire j).2.signal i = if i = j then .fired else r.signal i :=
      Registry.signal_setSignal r i _ held
    rw [registry, hfire]
    by_cases hi : i = j
    · subst hi
      rw [if_pos rfl]
      have hhanded : l ∈ (r.fire i).1 := List.mem_map_of_mem slot
      exact .inr ⟨rfl, List.mem_map_of_mem ((horder i _).mem_iff.mpr hhanded)⟩
    · rw [if_neg hi]
      exact .inl slot
  | releases hputs _ _ _ =>
    have hne := hd.ne_of_puts hputs nofun hheld
    rw [hputs.signal, slots_without]
    exact .inl (List.mem_filter.mpr ⟨slot, decide_eq_true hne⟩)
  | @stores h hook task hputs _ =>
    have hcarried : t.carried = hook := by
      rw [Task.carried, task]
      rfl
    have hne := hd.ne_of_puts hputs (fun x hx => hcarried.trans hx) hheld
    rw [hputs.signal, slots_without]
    exact .inl (List.mem_filter.mpr ⟨slot, decide_eq_true hne⟩)

theorem told_of_notify {i c : Nat} (hw : Wires order r (.notify i (.future c)) q more) :
    c ∈ q.told := by
  cases hw with
  | rests _ _ _ _ task _ => exact absurd rfl (task i c)
  | tells task registry =>
    cases task
    rw [registry]
    exact List.mem_cons_self
  | registers _ _ _ task _ => cases task
  | late _ _ _ task _ => cases task
  | drops _ _ task _ => cases task
  | fires _ _ task _ => cases task
  | releases _ _ _ task => cases task
  | stores task _ _ => cases task

/-- Whoever waited and still waits is not forgotten. -/
theorem Awaits.step (h : Awaits o ⟨r, t :: rest⟩ k) (horder : ∀ i ls, (order i ls).Perm ls)
    (hd : Distinct ⟨r, t :: rest⟩) (hd' : Distinct ⟨q, more ++ rest⟩)
    (hw : Wires order r t q more) (hk : IsKept ⟨q, more ++ rest⟩ k) (x : List (Option Nat)) :
    Awaits (o ++ x) ⟨q, more ++ rest⟩ k := by
  cases h with
  | lacks origin => exact .lacks (getElem?_of_opened origin x)
  | @listens i id origin hook slot =>
    have horigin := getElem?_of_opened origin x
    rcases slot_of_wires horder hd hw slot (hk.holds hd' hook) with hslot | ⟨hfired, hdue⟩
    · exact .listens horigin hook hslot
    · exact .told horigin hfired (.inr (List.mem_append_left _ hdue))
  | @told i origin fired heard =>
    have hfired : (q.signal i).isFired = true := by
      rcases isFired_of_wires hw i with hsame | ⟨hfires, -⟩
      · exact hsame.trans fired
      · exact hfires
    refine .told (getElem?_of_opened origin x) hfired ?_
    rcases heard with htold | hdue
    · exact .inl (told_of_wires hw _ htold)
    · rcases List.mem_cons.mp hdue with rfl | hrest
      · exact .inl (told_of_notify hw)
      · exact .inr (List.mem_append_right _ hrest)

/-- Whoever begins to wait is not forgotten. -/
theorem awaits_of_made {f : Int} (ho : r.channels = o.length) (hw : Wires order r t q more)
    (hk : .future f k ∈ more) : Awaits (o ++ (t.opens? r).toList) ⟨q, more ++ rest⟩ k := by
  cases hw with
  | rests _ _ _ _ _ steps =>
    obtain ⟨s, heq⟩ := steps _ hk
    cases heq
  | tells _ _ => cases hk
  | @registers i n slots l store armed signal _ _ channel =>
    cases channel with
    | callback _ _ => simp at hk
    | future task token channels =>
      cases List.mem_singleton.mp hk
      refine .listens ((Opens.future (p := q) task token channels).origin ho) rfl ?_
      show _ ∈ (q.signal i).slots
      rw [signal, if_pos rfl]
      exact List.mem_append_right _ (List.mem_singleton.mpr rfl)
  | @late i l store fired signal _ _ channel =>
    cases channel with
    | callback _ _ => simp at hk
    | future task token channels =>
      rcases List.mem_cons.mp hk with heq | hk
      · cases heq
      · cases List.mem_singleton.mp hk
        refine .told ((Opens.future (p := q) task token channels).origin ho) ?_
          (.inr List.mem_cons_self)
        show (q.signal i).isFired = true
        rw [signal, fired]
        rfl
  | drops _ _ _ channel =>
    cases channel with
    | callback _ _ => simp at hk
    | future task token channels =>
      cases List.mem_singleton.mp hk
      exact .lacks ((Opens.future (p := q) task token channels).origin ho)
  | fires _ _ _ _ =>
    obtain ⟨l, -, heq⟩ := List.mem_map.mp hk
    cases heq
  | releases _ _ _ _ => cases hk
  | stores _ _ _ => cases hk

end

/-! ### Along every run -/

/-- What is kept along a run. -/
structure Wired (order : Order) (m : Machine) (n : Nat) : Prop where
  distinct : Distinct (m.after order n)
  sourced : Sourced (m.origins order n) (m.history order n) (m.after order n)
  awaits : ∀ k, IsKept (m.after order n) k → Awaits (m.origins order n) (m.after order n) k
  known : Known (m.origins order n) (m.lifeOf order · n) (m.after order n)

theorem Wired.next {m : Machine} {n : Nat} (h : Wired order m n)
    (horder : ∀ i ls, (order i ls).Perm ls) : Wired order m (n + 1) := by
  obtain ⟨hd, hs, ha, hk⟩ := h
  cases hm : m.after order n with
  | mk r agenda =>
    cases agenda with
    | nil =>
      have hafter : m.after order (n + 1) = m.after order n := by
        show (m.after order n).tick order = m.after order n
        rw [hm]
        rfl
      have horigins : m.origins order (n + 1) = m.origins order n := by
        rw [Machine.origins, hm]
        exact List.append_nil _
      have hhistory : m.history order (n + 1) = m.history order n := by
        rw [Machine.history, hm]
        exact List.append_nil _
      have hlives : (m.lifeOf order · (n + 1)) = (m.lifeOf order · n) := by
        funext f
        rw [Machine.lifeOf, hm]
      refine ⟨?_, ?_, ?_, ?_⟩
      · rwa [hafter]
      · rwa [hafter, horigins, hhistory]
      · rwa [hafter, horigins]
      · rwa [hafter, horigins, hlives]
    | cons t rest =>
      rw [hm] at hd hs ha hk
      have hr : r.IsMade := hd.made
      have hw : Wires order r t _ _ := wires hr t
      have hafter : m.after order (n + 1)
          = ⟨(t.begin order r).1, (t.begin order r).2 ++ rest⟩ := by
        show (m.after order n).tick order = _
        rw [hm]
        rfl
      have horigins : m.origins order (n + 1) = m.origins order n ++ (t.opens? r).toList := by
        rw [Machine.origins, hm]
        rfl
      have hhistory : m.history order (n + 1) = m.history order n ++ (t.mark? r).toList := by
        rw [Machine.history, hm]
        rfl
      have hlives : (m.lifeOf order · (n + 1)) = fun f =>
          Life.next r f (m.lifeOf order f n) t := by
        funext f
        rw [Machine.lifeOf, hm]
      have hd' := hd.next (isMade_begin hr t) hw
      refine ⟨?_, ?_, ?_, ?_⟩
      · rwa [hafter]
      · rw [hafter, horigins, hhistory]
        exact hs.next hr horder hw
      · rw [hafter, horigins]
        intro k hkept
        rcases isKept_of_begin hkept with hold | ⟨f, hmade⟩
        · exact (ha k hold).step horder hd hd' hw hkept _
        · exact awaits_of_made hs.channels hw hmade
      · rw [hafter, horigins, hlives]
        exact hk.next hr hs.channels

/-- A script begins with nothing registered and no futures. -/
theorem wired_start (steps : List Step) : Wired order (Machine.ofScript steps) 0 := by
  have hsteps : ∀ t ∈ (Machine.ofScript steps).agenda, ∃ s, t = .step s := by
    intro t ht
    obtain ⟨s, -, rfl⟩ := List.mem_map.mp ht
    exact ⟨s, rfl⟩
  have hquiet : ∀ t ∈ (Machine.ofScript steps).agenda, t.carried = none := by
    intro t ht
    obtain ⟨s, rfl⟩ := hsteps t ht
    rfl
  have hnone : ∀ a, (Machine.ofScript steps).holds a = none := by
    rintro (_ | c | f)
    · exact Machine.holds_none_of_quiet hquiet
    · rfl
    · rfl
  have hfresh : ∀ i, (Machine.ofScript steps).registry.signal i = .fresh := by
    intro i
    rw [Machine.ofScript, Registry.signal_create, Registry.signal_eq_fresh (Nat.zero_le i)]
  have hmade : (Machine.ofScript steps).registry.IsMade := Registry.isMade_start.create 0
  refine ⟨⟨hmade, ?_, ?_, ?_⟩, ⟨rfl, ?_, ?_, ?_, ?_⟩, ?_, ⟨.nothing ?_, ?_⟩⟩
  · exact fun t ht => hquiet t (List.mem_of_mem_tail ht)
  · intro a b x ha
    cases (hnone a).symm.trans ha
  · intro a i id k slots ha
    cases (hnone a).symm.trans ha
  · intro i id c hmem
    rw [Machine.after, hfresh] at hmem
    cases hmem
  · intro i c hmem
    obtain ⟨s, heq⟩ := hsteps _ hmem
    cases heq
  · intro i c hmem
    cases hmem
  · intro c
    refine ⟨?_, ?_⟩
    · intro hmem
      cases hmem
    · rintro ⟨i, hmem⟩
      cases hmem
  · intro k hkept
    cases hkept with
    | stored stored _ => cases stored
    | due due =>
      obtain ⟨s, heq⟩ := hsteps _ due
      cases heq
  · intro f k hmem
    obtain ⟨s, heq⟩ := hsteps _ hmem
    cases heq
  · intro f k hstored
    cases hstored

theorem wired_of_script (horder : ∀ i ls, (order i ls).Perm ls) (steps : List Step) (n : Nat) :
    Wired order (Machine.ofScript steps) n := by
  induction n with
  | zero => exact wired_start steps
  | succ n ih => exact ih.next horder

/-! ### What a poll learns -/

/--
A future that has not been ready is ready if and only if its signal fired.

The future is stored under the name `f` after `n` ticks, and `life` is what is known of it.
-/
structure ResolvesOnFiring (order : Order) (m : Machine) (n : Nat) (f : Int) (future : Future)
    (life : Life) : Prop where
  answers : life.wasReady = false → (m.after order n).registry.polled? f = some .ready
    ∨ (m.after order n).registry.polled? f = some .pending
  /-- In the middle of a firing it is ready once its own listener ran. -/
  heard : life.wasReady = false → ∀ i, life.source = some i →
    ((m.after order n).registry.polled? f = some .ready
      ↔ .ran (.future future.channel) ∈ m.marks order n i)
  fired : life.wasReady = false → ∀ i, life.source = some i →
    .future future.channel ∉ due i (m.after order n).agenda →
    ((m.after order n).registry.polled? f = some .ready
      ↔ ((m.after order n).registry.signal i).isFired = true)
  /-- Without a signal that fired it never was ready, and is not. -/
  pending : (∀ i, life.source = some i →
    ((m.after order n).registry.signal i).isFired = false) →
    life.wasReady = false ∧ (m.after order n).registry.polled? f = some .pending

theorem mem_due {i : Nat} {l : Listener Callback} {agenda : List Task} :
    l ∈ due i agenda ↔ .notify i l ∈ agenda := by
  unfold due
  rw [List.mem_filterMap]
  refine ⟨?_, ?_⟩
  · rintro ⟨t, ht, hdue⟩
    cases t with
    | notify j k =>
      rw [Task.due?_notify] at hdue
      split at hdue
      · next hj =>
        cases hdue
        rwa [← hj]
      · cases hdue
    | _ => cases hdue
  · intro hmem
    exact ⟨_, hmem, by simp⟩

theorem mem_marks {m : Machine} {n i : Nat} {c : Mark} :
    c ∈ m.marks order n i ↔ (i, c) ∈ m.history order n := by
  unfold Machine.marks
  rw [List.mem_filterMap]
  refine ⟨?_, ?_⟩
  · rintro ⟨⟨j, d⟩, hmem, hon⟩
    unfold on? at hon
    dsimp only at hon
    split at hon
    · next hj =>
      cases hon
      rwa [← hj]
    · cases hon
  · intro hmem
    exact ⟨_, hmem, by simp [on?]⟩

theorem stands_of_script (horder : ∀ i ls, (order i ls).Perm ls) (steps : List Step) (n i : Nat) :
    Stands ((Machine.ofScript steps).marks order n i)
      (((Machine.ofScript steps).after order n).registry.signal i)
      (due i ((Machine.ofScript steps).after order n).agenda) := by
  refine Machine.stands_after horder (Registry.isMade_start.create 0) ?_ n i
  intro j
  have hfresh : (Machine.ofScript steps).registry.signal j = .fresh := by
    rw [Machine.ofScript, Registry.signal_create, Registry.signal_eq_fresh (Nat.zero_le j)]
  rw [hfresh, show due j (Machine.ofScript steps).agenda = [] from due_steps j steps]
  exact .start

/-- Nothing runs on a signal before it fires. -/
theorem Stands.fired_of_ran {h : List Mark} {s : Signal (Listener Callback)}
    {due : List (Listener Callback)} (hstands : Stands h s due) {l : Listener Callback}
    (hran : .ran l ∈ h) : s.isFired = true := by
  rw [hstands.isFired_iff]
  by_contra hunfired
  have hmem : l ∈ runs h := List.mem_filterMap.mpr ⟨_, hran, rfl⟩
  rw [(hstands.isBroadcast.silent hunfired).1] at hmem
  cases hmem

/-- A future that was not ready before is ready if its channel was told. -/
theorem polled?_of_unfinished {f : Int} {future : Future} (stored : r.futures.get? f = some future)
    (unfinished : future.finished = false) :
    r.polled? f = some (if r.told.contains future.channel then .ready else .pending) := by
  rw [Registry.polled?, stored, Option.map_some, Registry.pollFuture, unfinished,
    if_neg Bool.false_ne_true]
  split <;> rfl

theorem polled?_eq_ready_iff {f : Int} {future : Future} (stored : r.futures.get? f = some future)
    (unfinished : future.finished = false) :
    r.polled? f = some .ready ↔ future.channel ∈ r.told := by
  rw [polled?_of_unfinished stored unfinished]
  by_cases htold : future.channel ∈ r.told
  · simp [htold]
  · simp [htold]

/-- A future whose signal fired was told, or its listener is still to run. -/
theorem Awaits.told_of_fired {o : List (Option Nat)} {m : Machine} {k : Future} {i : Nat}
    (h : Awaits o m k) (origin : o[k.channel]? = some (some i))
    (fired : (m.registry.signal i).isFired = true) (ran : .future k.channel ∉ due i m.agenda) :
    k.channel ∈ m.registry.told := by
  cases h with
  | lacks own =>
    rw [origin] at own
    cases own
  | listens own _ slot =>
    rw [origin] at own
    cases own
    rw [isFired_of_slots slot] at fired
    cases fired
  | told own _ heard =>
    rw [origin] at own
    cases own
    rcases heard with htold | hdue
    · exact htold
    · exact absurd (mem_due.mpr hdue) ran

/-- A channel that was told was opened for a signal, and a listener of that signal told it. -/
theorem Wired.ran_of_told {m : Machine} {n c : Nat} {source : Option Nat} (h : Wired order m n)
    (origin : (m.origins order n)[c]? = some source)
    (told : c ∈ (m.after order n).registry.told) :
    ∃ i, source = some i ∧ .ran (.future c) ∈ m.marks order n i := by
  obtain ⟨i, hran⟩ := (h.sourced.told c).mp told
  have hsame := h.sourced.ran i _ hran
  rw [origin] at hsame
  exact ⟨i, Option.some.inj hsame, mem_marks.mpr hran⟩

theorem Wired.resolves {m : Machine} {n : Nat} (h : Wired order m n)
    (hstands : ∀ i, Stands (m.marks order n i) ((m.after order n).registry.signal i)
      (due i (m.after order n).agenda)) {f : Int} {future : Future}
    (stored : (m.after order n).registry.futures.get? f = some future)
    (quiet : ∀ other, .future f other ∉ (m.after order n).agenda) :
    ∃ life, m.lifeOf order f n = some life ∧ ResolvesOnFiring order m n f future life := by
  obtain ⟨life, hlife, horigin, hfinished, hwas⟩ := h.known.stored f future stored quiet
  refine ⟨life, hlife, ?_, ?_, ?_, ?_⟩
  · intro hunready
    rw [polled?_of_unfinished stored (hfinished.trans hunready)]
    split
    · exact .inl rfl
    · exact .inr rfl
  · intro hunready i hsource
    rw [polled?_eq_ready_iff stored (hfinished.trans hunready)]
    rw [hsource] at horigin
    refine ⟨?_, ?_⟩
    · intro htold
      obtain ⟨j, hj, hran⟩ := h.ran_of_told horigin htold
      cases hj
      exact hran
    · intro hran
      exact (h.sourced.told _).mpr ⟨i, mem_marks.mp hran⟩
  · intro hunready i hsource hdone
    have hunfinished : future.finished = false := hfinished.trans hunready
    rw [polled?_eq_ready_iff stored hunfinished]
    rw [hsource] at horigin
    refine ⟨?_, ?_⟩
    · intro htold
      obtain ⟨j, hj, hran⟩ := h.ran_of_told horigin htold
      cases hj
      exact (hstands i).fired_of_ran hran
    · intro hfired
      exact (h.awaits future (.stored stored hunfinished)).told_of_fired horigin hfired hdone
  · intro hunfired
    have huntold : future.channel ∉ (m.after order n).registry.told := by
      intro htold
      obtain ⟨j, hj, hran⟩ := h.ran_of_told horigin htold
      have hfired := (hstands j).fired_of_ran hran
      rw [hunfired j hj] at hfired
      cases hfired
    have hunfinished : future.finished = false := by
      rw [← Bool.not_eq_true]
      exact fun hf => huntold (hwas hf)
    refine ⟨hfinished.symm.trans hunfinished, ?_⟩
    rw [polled?_of_unfinished stored hunfinished]
    simp [huntold]

/-! ### Signals that nobody holds -/

/-- The signal was made and did not fire, and all its sources and tokens are gone. -/
structure IsAbandoned (r : Registry Callback) (i : Nat) : Prop where
  made : i < r.signals.length
  unheld : r.isHeld i = false
  unfired : (r.signal i).isFired = false

theorem KeepsHandles.enrol (r : Registry Callback) (i : Option Nat) (l : Listener Callback)
    (store : Hook → Task) : KeepsHandles r (r.enrol i l store).1 := by
  have henrols := enrols r i l store
  generalize r.enrols? i l = mark at henrols
  generalize r.enrol i l store = result at henrols ⊢
  obtain ⟨q, more⟩ := result
  cases henrols with
  | registers _ registry =>
    rw [registry]
    exact .setSignal r _ _
  | late _ registry =>
    rw [registry]
    exact .refl r
  | drops registry =>
    rw [registry]
    exact .refl r

/-- A task stores or drops one handle, or none. -/
theorem handles_begin (order : Order) (r : Registry Callback) (t : Task) :
    (∃ op, (t.begin order r).1 = r.step op) ∨ KeepsHandles r (t.begin order r).1 := by
  cases t with
  | notify i l => cases l <;> exact .inr ⟨rfl, rfl, rfl⟩
  | hook conn h => exact .inr (.storeHook r conn h)
  | future f kept => exact .inr (.letGo r _ _ _)
  | step s =>
    cases s with
    | source s => exact .inl ⟨.source s, rfl⟩
    | dropSource s =>
      simp only [Task.begin, Step.begin]
      split
      · exact .inr (.refl r)
      · exact .inl ⟨.dropSource s, rfl⟩
    | token s t =>
      simp only [Task.begin, Step.begin]
      split
      · exact .inr (.refl r)
      · next i hs =>
        exact .inl ⟨.token s t, by simp only [Registry.step, Registry.viaSource, hs]⟩
    | defaultToken t => exact .inl ⟨.defaultToken t, rfl⟩
    | cloneToken t target =>
      simp only [Task.begin, Step.begin]
      split
      · exact .inr (.refl r)
      · next i ht =>
        exact .inl ⟨.cloneToken t target, by simp only [Registry.step, Registry.viaToken, ht]⟩
    | dropToken t =>
      simp only [Task.begin, Step.begin]
      split
      · exact .inr (.refl r)
      · exact .inl ⟨.dropToken t, rfl⟩
    | register s conn name body =>
      simp only [Task.begin, Step.begin]
      split
      · exact .inr (.refl r)
      · exact .inr (.enrol r _ _ _)
    | registerToken t conn name body =>
      simp only [Task.begin, Step.begin]
      split
      · exact .inr (.refl r)
      · exact .inr (.enrol r _ _ _)
    | fire s =>
      simp only [Task.begin, Step.begin]
      split
      · exact .inr (.refl r)
      · exact .inr (.setSignal r _ _)
    | disconnect conn => exact .inl ⟨.disconnect conn, rfl⟩
    | dropConn conn => exact .inl ⟨.dropConn conn, rfl⟩
    | stopped t f =>
      simp only [Task.begin, Step.begin]
      split
      · exact .inr (.refl r)
      · refine .inr (KeepsHandles.trans (p := { r with channels := r.channels + 1 }) ?_
          (.enrol _ _ _ _))
        exact ⟨rfl, rfl, rfl⟩
    | poll f =>
      simp only [Task.begin, Step.begin]
      split
      · exact .inr (.refl r)
      · next future hf => exact .inl ⟨.poll f, by simp only [Registry.step, hf]⟩
    | dropFuture f => exact .inl ⟨.dropFuture f, rfl⟩
    | panic message => exact .inr (.refl r)
    | unknown => exact .inr (.refl r)

namespace IsAbandoned

variable {i : Nat}

/-- Nothing is left to fire it with, or to make another handle from. -/
theorem begin (h : IsAbandoned r i) (hr : r.IsMade) (t : Task) :
    IsAbandoned (t.begin order r).1 i := by
  obtain ⟨hmade, hunheld, hunfired⟩ := h
  have hw : Wires order r t _ _ := wires hr t
  have hfired : ((t.begin order r).1.signal i).isFired = false := by
    rcases isFired_of_wires hw i with hsame | ⟨-, hheld⟩
    · exact hsame.trans hunfired
    · rw [hunheld] at hheld
      cases hheld
  rcases handles_begin order r t with ⟨op, hop⟩ | ⟨hlength, hsources, htokens⟩
  · have hlength := length_le_step r op
    refine ⟨by rw [hop]; omega, ?_, hfired⟩
    rw [hop, ← Bool.not_eq_true]
    intro hheld
    rw [isHeld_of_step op hmade hheld] at hunheld
    cases hunheld
  · refine ⟨hlength ▸ hmade, ?_, hfired⟩
    unfold Registry.isHeld at hunheld ⊢
    rwa [hsources, htokens]

theorem after {m : Machine} (hm : m.registry.IsMade) (h : IsAbandoned m.registry i) (n : Nat) :
    IsAbandoned (m.after order n).registry i := by
  induction n with
  | zero => exact h
  | succ n ih =>
    have hmade : (m.after order n).registry.IsMade := Machine.isMade_after hm n
    show IsAbandoned ((m.after order n).tick order).registry i
    generalize m.after order n = m at ih hmade
    obtain ⟨r, agenda⟩ := m
    cases agenda with
    | nil => exact ih
    | cons t rest => exact ih.begin hmade t

end IsAbandoned

/-! ### Polls of a script -/

/-- What a step answers that polls a future. -/
def answerPoll : Option Polled → Answer
  | none => .absent
  | some polled => .polled polled

theorem start_poll {inner : List Step → Play (List (Report Answer Event))} (f : Int)
    (events : List Event) :
    ((perform order inner (.poll f)).start ⟨r, events⟩).1 = .ok (answerPoll (r.polled? f)) := by
  rw [perform, start_withFuture, Registry.polled?]
  cases r.futures.get? f <;> rfl

/-- Every step of a script begins when those before it have ended, and answers from there. -/
theorem begins_of_script (horder : ∀ i ls, (order i ls).Perm ls) {bound : Nat}
    {inner : List Step → Play (List (Report Answer Event))}
    (hinner : RunsWithin order inner bound) {steps : List Step}
    (hfits : Fits r (steps.map .step) bound) {k : Nat} {s : Step} (hk : steps[k]? = some s) :
    ∃ n line, (Dialogue.Play.script (perform order inner) (fun _ q => q.view) r steps)[k]?
      = some line ∧
      (Machine.after order ⟨r, steps.map .step⟩ n).agenda = (steps.drop k).map .step ∧
      line.answer
        = ((perform order inner s).start
          ⟨(Machine.after order ⟨r, steps.map .step⟩ n).registry, []⟩).1 := by
  induction steps generalizing r k with
  | nil => cases hk
  | cons t steps ih =>
    have hfirst : Fits r ([.step t] ++ steps.map .step) bound := hfits
    obtain ⟨a, q, told, ran, hstart, hdone, -⟩ :=
      plays_step horder hinner (hfirst.of_append.mono (Nat.le_succ bound)) []
    have hlines : Dialogue.Play.script (perform order inner) (fun _ q => q.view) r (t :: steps)
        = ⟨.ok a, told, q.view⟩ :: Dialogue.Play.script (perform order inner)
            (fun _ q => q.view) q steps := by
      rw [Dialogue.Play.script, hstart]
    rw [hlines]
    cases k with
    | zero =>
      cases hk
      refine ⟨0, _, rfl, rfl, ?_⟩
      show Except.ok a = ((perform order inner s).start ⟨r, []⟩).1
      rw [hstart]
    | succ k =>
      obtain ⟨more, line, hline, hrest, hanswer⟩ := ih (hfirst.completes horder hdone) hk
      obtain ⟨n, hn⟩ := hdone
      obtain ⟨hstate, -⟩ := hn (steps.map .step)
      have hafter : Machine.after order ⟨r, (t :: steps).map .step⟩ (n + more)
          = Machine.after order ⟨q, steps.map .step⟩ more := by
        rw [Machine.after_add]
        exact congrArg (Machine.after order · more) hstate
      refine ⟨n + more, line, hline, ?_, ?_⟩
      · rw [hafter]
        exact hrest
      · rw [hafter]
        exact hanswer

/--
**A future is ready exactly when its signal has fired.**

For every script without panics, and in whichever orders signals go through their listeners, a
future that a poll has not found ready yet is ready if and only if the signal fired that it was made
for, before or after it was made; in the middle of a firing, if and only if its own listener ran.
One that was made for no signal, or for a signal that did not fire, is pending, and a signal whose
sources and tokens are all gone will not fire.  So it is at every moment but while the future is
being replaced, in particular before every step, at whatever depth; and the polls of the script
itself, which no firing is in the middle of, are answered accordingly.
-/
theorem readiness_of_script {order : Order} (horder : ∀ i ls, (order i ls).Perm ls)
    {steps : List Step} (hcalm : areCalm steps = true) :
    let m := Machine.ofScript steps
    (∀ n f future, (m.after order n).registry.futures.get? f = some future →
      (∀ other, .future f other ∉ (m.after order n).agenda) →
      ∃ life, m.lifeOf order f n = some life ∧ ResolvesOnFiring order m n f future life) ∧
    (∀ n s, (m.after order n).agenda.head? = some (.step s) →
      ∀ f other, .future f other ∉ (m.after order n).agenda) ∧
    (∀ n i, IsAbandoned (m.after order n).registry i → ∀ k,
      IsAbandoned (m.after order (n + k)).registry i) ∧
    (∀ n inner f events,
      ((perform order inner (.poll f)).start ⟨(m.after order n).registry, events⟩).1
        = .ok (answerPoll ((m.after order n).registry.polled? f))) ∧
    ∀ k f, steps[k]? = some (.poll f) → ∃ n line, (runScript order steps)[k]? = some line ∧
      (m.after order n).agenda = (steps.drop k).map .step ∧
      (∀ i, due i (m.after order n).agenda = []) ∧
      line.answer = .ok (answerPoll ((m.after order n).registry.polled? f)) := by
  intro m
  have hmade : m.registry.IsMade := Registry.isMade_start.create 0
  refine ⟨?_, ?_, ?_, fun n inner f events => start_poll f events, ?_⟩
  · intro n f future stored quiet
    exact (wired_of_script horder steps n).resolves (stands_of_script horder steps n) stored quiet
  · intro n s hhead
    exact (wired_of_script horder steps n).known.storing.quiet_of_step hhead
  · intro n i h k
    rw [Machine.after_add]
    exact h.after (Machine.isMade_after hmade n) k
  · intro k f hk
    obtain ⟨n, line, hline, hrest, hanswer⟩ :=
      begins_of_script horder (runsWithin_runBody horder (weights steps)) (fits_ofScript hcalm) hk
    refine ⟨n, line, hline, hrest, ?_, hanswer.trans (start_poll f [])⟩
    intro i
    have hagenda : (m.after order n).agenda = (steps.drop k).map .step := hrest
    rw [hagenda, due_steps]

/-- A callback polls a future before the word of the firing is passed on to it.  Another future is
made for a signal whose source and token are dropped. -/
def early : List Step :=
  [.token 0 0, .register 0 0 7 [.poll 1], .stopped 0 1, .dropToken 0, .fire 0, .poll 1,
    .source 1, .token 1 2, .stopped 2 3, .dropSource 1, .dropToken 2, .poll 3]

theorem readiness_of_early :
    (∀ i ls, (Order.registration i ls).Perm ls) ∧ areCalm early = true ∧
      let m := Machine.ofScript early
      ((m.after .registration 8).registry.signal 0).isFired = true ∧
      (m.after .registration 8).registry.polled? 1 = some .pending ∧
      (m.after .registration 10).registry.polled? 1 = some .ready ∧
      ∀ k, ((m.after .registration (17 + k)).registry.signal 1).isFired = false := by
  have horder : ∀ i ls, (Order.registration i ls).Perm ls := fun _ _ => .refl _
  have hcalm : areCalm early = true := rfl
  obtain ⟨hpolls, hquiet, habandoned, -⟩ := readiness_of_script horder hcalm
  refine ⟨horder, hcalm, rfl, ?_, ?_, ?_⟩
  · obtain ⟨life, hlife, hresolves⟩ := hpolls 8 1 _ rfl (hquiet 8 _ rfl 1)
    cases hlife
    refine (hresolves.answers rfl).resolve_left fun hready => ?_
    have hran := (hresolves.heard rfl 0 rfl).mp hready
    simp [show Machine.marks .registration (Machine.ofScript early) 8 0
      = [.registered 0 (.callback ⟨7, [.poll 1]⟩), .registered 1 (.future 0), .fired,
        .ran (.callback ⟨7, [.poll 1]⟩)] from rfl] at hran
  · obtain ⟨life, hlife, hresolves⟩ := hpolls 10 1 _ rfl (hquiet 10 _ rfl 1)
    cases hlife
    exact (hresolves.fired rfl 0 rfl List.not_mem_nil).mpr rfl
  · intro k
    exact (habandoned 17 1 ⟨by decide, rfl, rfl⟩ k).unfired

end Dialogue.Broadcast
