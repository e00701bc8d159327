/-
A stop reaches the engine.

A handle does not touch the record of progress when it is asked to stop.  It fires the stop signal,
and the engine, registered there like any other listener, enters the verdict when its turn comes.
`Hooked` is why this works: as long as there is something to stop, the engine is registered, nobody
else holds the number of its registration, and once the signal has fired the engine's deed is on the
list or already done.  So when a stop has returned, and nothing is left to do, there is a verdict.

A verdict stays whatever happens, panics included.
-/
import Dialogue.Proofs.Session.Settling

namespace Dialogue.Session

/-! ### A verdict stays -/

theorem verdict_settleProgress {s : Session} {v : Verdict} (h : s.progress.verdict = some v) :
    s.settleProgress.progress.verdict = some v := by
  rw [settleProgress_eq]
  simp [h]

theorem verdict_tearDown {s : Session} {cause : Panic} {v : Verdict}
    (h : s.progress.verdict = some v) : (s.tearDown cause).progress.verdict = some v := by
  cases hr : s.running with
  | false => rw [tearDown_of_not_running hr]; exact h
  | true =>
    obtain ⟨hp, -⟩ | ⟨hp, -⟩ := (tearDown_of_running hr cause).progress
    · rw [hp]
      exact h
    · rw [hp]
      exact verdict_settleProgress h

theorem verdict_advances {s t : Session} {v : Verdict} (ha : Advances s t)
    (h : s.progress.verdict = some v) : t.progress.verdict = some v := by
  cases ha with
  | shuts hg => rw [wireClosed_eq]; exact h
  | fails hf link => rw [fail_eq]; simp [Progress.judge, h]
  | asks hp hw => rw [passOn_eq]; exact h
  | isDenied hp hw => exact verdict_tearDown h
  | concludes hp => rw [conclude_eq]; exact verdict_settleProgress h
  | finishes hp => rw [finish_eq, unhookEngine_eq]; exact h
  | _ => exact h

theorem verdict_perform {s : Session} {d : Deed} {v : Verdict} (h : s.progress.verdict = some v) :
    (s.perform d).progress.verdict = some v := by
  cases d with
  | act a =>
    obtain ⟨message, -, ha⟩ | ⟨message, -, ha⟩ | ⟨-, ha⟩ := act_cases s a
    · rw [perform, ha, send_eq]
      split <;> exact h
    · rw [perform, ha]
      exact verdict_tearDown h
    · obtain ⟨r, hr⟩ := ha.progress
      rw [perform, hr]
      exact h
  | engineStop => rw [perform, progress_onStop]; simp [h]
  | heard id => exact h

theorem verdict_move {s : Session} {v : Verdict} (h : s.progress.verdict = some v) (m : Move) :
    (s.move m).progress.verdict = some v := by
  generalize ht : s.move m = t
  have hm := moves s m
  rw [ht] at hm
  cases hm with
  | acts a => exact verdict_perform (d := .act a) h
  | does hd => exact verdict_perform (by exact h)
  | advances hd hr ha => exact verdict_advances ha h
  | drops hr hp => rw [releaseOperations_eq]; exact h
  | disowns hp => rw [unhookEngine_eq]; exact h
  | _ => exact h

/-- **What ended a session is decided once and stays.** -/
theorem verdict_after {s : Session} {v : Verdict} (h : s.progress.verdict = some v)
    (ms : List Move) : (s.after ms).progress.verdict = some v :=
  after_induction (P := fun _ t => t.progress.verdict = some v) h
    (fun _ m ih => verdict_move ih m) ms

/-! ### The engine is registered -/

/-- The engine is registered on the stop signal as long as there is something to stop. -/
structure Hooked (s : Session) : Prop where
  /-- The number 0 is not given away again. -/
  numbers : ∀ n slots, s.stopSignal = .armed n slots → n ≠ 0
  tokens : ∀ id, s.tokens.get? id ≠ some (some 0)
  hook : s.engineHook = none ∨ s.engineHook = some 0
  registered : s.engineHook = some 0 → s.stopSignal.isFired = false →
    (0, Listener.engine) ∈ s.stopSignal.slots
  gone : s.engineHook = none → s.position = .neverRun ∨ s.position = .over
  heard : s.stopSignal.isFired = true → s.engineHook ≠ none →
    .engineStop ∈ s.doing ∨ s.progress.verdict ≠ none

namespace Hooked

variable {s t : Session}

theorem of_same (h : Hooked s) (signal : t.stopSignal = s.stopSignal) (tokens : t.tokens = s.tokens)
    (hook : t.engineHook = s.engineHook)
    (gone : s.position = .neverRun ∨ s.position = .over → t.position = s.position)
    (doing : .engineStop ∈ s.doing → .engineStop ∈ t.doing ∨ t.progress.verdict ≠ none)
    (verdict : s.progress.verdict ≠ none → t.progress.verdict ≠ none) : Hooked t := by
  refine ⟨?_, ?_, ?_, ?_, ?_, ?_⟩
  · rw [signal]
    exact h.numbers
  · rw [tokens]
    exact h.tokens
  · rw [hook]
    exact h.hook
  · rw [hook, signal]
    exact h.registered
  · intro hn
    rw [hook] at hn
    have hp := h.gone hn
    rw [gone hp]
    exact hp
  · intro hf hn
    rw [signal] at hf
    rw [hook] at hn
    rcases h.heard hf hn with hd | hv
    · exact doing hd
    · exact .inr (verdict hv)

theorem numbers_disconnect (h : Hooked s) (id n : Nat) (slots : List (Nat × Listener))
    (hs : s.stopSignal.disconnect id = .armed n slots) : n ≠ 0 := by
  cases hsig : s.stopSignal with
  | armed m l =>
    have hm := h.numbers m l hsig
    rw [hsig] at hs
    cases hs
    exact hm
  | fired =>
    rw [hsig] at hs
    cases hs

/-- The engine itself lets go when there is nothing to stop any more. -/
theorem released (h : Hooked s)
    (signal : t.stopSignal = s.engineHook.elim s.stopSignal s.stopSignal.disconnect)
    (tokens : t.tokens = s.tokens) (hook : t.engineHook = none)
    (gone : t.position = .neverRun ∨ t.position = .over) : Hooked t := by
  refine ⟨?_, ?_, .inl hook, ?_, fun _ => gone, fun _ hn => absurd hook hn⟩
  · intro n slots hs
    rw [signal] at hs
    cases hk : s.engineHook with
    | none =>
      rw [hk] at hs
      exact h.numbers n slots hs
    | some id =>
      rw [hk] at hs
      exact h.numbers_disconnect id n slots hs
  · rw [tokens]
    exact h.tokens
  · rw [hook]
    nofun

/-- Somebody else lets go of a registration. -/
theorem unhookStop (h : Hooked s) {hook : Option Nat} (hne : hook ≠ some 0) :
    Hooked (s.unhookStop hook) := by
  cases hook with
  | none => exact h
  | some id =>
    have hid : id ≠ 0 := fun h0 => hne (by rw [h0])
    refine ⟨h.numbers_disconnect id, h.tokens, h.hook, ?_, h.gone, ?_⟩
    · intro hk hf
      have hf' : s.stopSignal.isFired = false := by
        rw [← Broadcast.Signal.isFired_disconnect s.stopSignal id]
        exact hf
      have hmem := h.registered hk hf'
      show (0, Listener.engine) ∈ (s.stopSignal.disconnect id).slots
      rw [Broadcast.Signal.slots_disconnect, List.mem_filter]
      exact ⟨hmem, by simpa using Ne.symm hid⟩
    · intro hf hn
      refine h.heard ?_ hn
      rw [← Broadcast.Signal.isFired_disconnect s.stopSignal id]
      exact hf

/-- A stop puts the engine's deed on the list. -/
theorem fireStop (h : Hooked s) (perm : ∀ l, (s.order l).Perm l) : Hooked s.fireStop := by
  refine ⟨nofun, h.tokens, h.hook, ?_, h.gone, ?_⟩
  · intro _ hf
    cases hf
  · intro _ hn
    have hdoing : s.fireStop.doing
        = (s.order (s.stopSignal.slots.map (·.2))).flatMap (·.deeds) ++ s.doing := rfl
    rw [hdoing]
    cases hf : s.stopSignal.isFired with
    | true =>
      rcases h.heard hf hn with hd | hv
      · exact .inl (List.mem_append_right _ hd)
      · exact .inr hv
    | false =>
      have hk : s.engineHook = some 0 := by
        rcases h.hook with hk | hk
        · exact absurd hk hn
        · exact hk
      have hmem : Listener.engine ∈ s.stopSignal.slots.map (·.2) :=
        List.mem_map_of_mem (h.registered hk hf)
      have hlisted := (perm _).mem_iff.mpr hmem
      refine .inl (List.mem_append_left _ (List.mem_flatMap.mpr ⟨_, hlisted, ?_⟩))
      exact List.mem_singleton_self _

theorem listen (h : Hooked s) (id : Int) (acts : List Act) : Hooked (s.listen id acts) := by
  have hold : (s.tokens.get? id).getD none ≠ some 0 := by
    cases hg : s.tokens.get? id with
    | none => nofun
    | some hook =>
      intro hh
      have hz : hook = some 0 := hh
      exact h.tokens id (by rw [hg, hz])
  unfold Session.listen
  dsimp only
  split
  · next hook signal hreg =>
    obtain ⟨slots, hsig, rfl⟩ : ∃ slots, s.stopSignal = .armed hook slots ∧
        signal = .armed (hook + 1) (slots ++ [(hook, .token id acts)]) := by
      cases hsig : s.stopSignal with
      | armed n slots =>
        rw [hsig] at hreg
        cases hreg
        exact ⟨slots, rfl, rfl⟩
      | fired =>
        rw [hsig] at hreg
        cases hreg
    have hn := h.numbers hook slots hsig
    refine unhookStop ?_ hold
    refine ⟨?_, ?_, h.hook, ?_, h.gone, nofun⟩
    · intro m l hs
      cases hs
      exact Nat.succ_ne_zero hook
    · intro j
      show (s.tokens.put id (some hook)).get? j ≠ some (some 0)
      rw [Table.get?_put]
      split
      · intro hj
        cases hj
        exact hn rfl
      · exact h.tokens j
    · intro hk _
      have hmem := h.registered hk (by rw [hsig]; rfl)
      rw [hsig] at hmem
      exact List.mem_append_left _ hmem
  · refine ⟨h.numbers, ?_, h.hook, h.registered, h.gone, ?_⟩
    · intro j
      show (s.tokens.put id none).get? j ≠ some (some 0)
      rw [Table.get?_put]
      split
      · nofun
      · exact h.tokens j
    · intro hf hn
      rcases h.heard hf hn with hd | hv
      · exact .inl (List.mem_append_right _ hd)
      · exact .inr hv

theorem unlisten (h : Hooked s) (id : Int) : Hooked (s.unlisten id) := by
  unfold Session.unlisten
  split
  · exact h
  · next hook hg =>
    refine unhookStop ?_ ?_
    · refine ⟨h.numbers, ?_, h.hook, h.registered, h.gone, h.heard⟩
      intro j
      show (s.tokens.erase id).get? j ≠ some (some 0)
      rw [Table.get?_erase]
      split
      · nofun
      · exact h.tokens j
    · rintro rfl
      exact h.tokens id hg

theorem act (h : Hooked s) (perm : ∀ l, (s.order l).Perm l) (a : Act)
    (quiet : a.raised? = none) : Hooked (s.act a) := by
  have same : ∀ t : Session, t.stopSignal = s.stopSignal → t.tokens = s.tokens →
      t.engineHook = s.engineHook → t.position = s.position → t.doing = s.doing →
      t.progress.verdict = s.progress.verdict → Hooked t := by
    intro t hs htok hh hp hd hv
    refine h.of_same hs htok hh (fun _ => hp) ?_ ?_
    · rw [hd]
      exact .inl
    · rw [hv]
      exact id
  cases a with
  | send message =>
    rw [Session.act, send_eq]
    split <;> exact same _ rfl rfl rfl rfl rfl rfl
  | echo =>
    rw [Session.act, send_eq]
    split <;> exact same _ rfl rfl rfl rfl rfl rfl
  | stop => exact h.fireStop perm
  | stopWith r =>
    rw [Session.act, chooseReason_eq]
    refine fireStop (same _ rfl rfl rfl rfl rfl rfl) ?_
    exact perm
  | panic message => cases quiet
  | listen id acts => exact h.listen id acts
  | unlisten id => exact h.unlisten id
  | closed id =>
    simp only [Session.act, createWaiter]
    split <;> split <;> exact same _ rfl rfl rfl rfl rfl rfl
  | link act =>
    rw [Session.act, onLink, touch_eq]
    exact same _ rfl rfl rfl rfl rfl rfl
  | note => exact same _ rfl rfl rfl rfl rfl rfl
  | tokenFired => exact h
  | debug => exact h

/-- The deed of the engine enters a verdict; any other leaves that deed on the list. -/
theorem does {d : Deed} {rest : List Deed} (h : Hooked s) (perm : ∀ l, (s.order l).Perm l)
    (hd : s.doing = d :: rest) (quiet : d.raised? = none) :
    Hooked ({ s with doing := rest }.perform d) := by
  have hrest : d ≠ .engineStop → Hooked { s with doing := rest } := by
    intro hne
    refine h.of_same rfl rfl rfl (fun _ => rfl) ?_ id
    rw [hd]
    intro hmem
    rcases List.mem_cons.mp hmem with he | hmem
    · exact absurd he.symm hne
    · exact .inl hmem
  cases d with
  | act a => exact (hrest (by simp)).act perm a quiet
  | engineStop =>
    have hverdict : (Session.onStop { s with doing := rest }).progress.verdict ≠ none := by
      rw [progress_onStop]
      simp
    rw [perform]
    rw [onStop_eq] at hverdict ⊢
    exact h.of_same rfl rfl rfl (fun _ => rfl) (fun _ => .inr hverdict) (fun _ => hverdict)
  | heard id => exact (hrest (by simp)).of_same rfl rfl rfl (fun _ => rfl) .inl fun hv => hv

/-- A panic takes the deed of the engine away, if it has still to be done. -/
theorem tearDown (h : Hooked s)
    (heard : s.stopSignal.isFired = true → s.engineHook ≠ none → s.progress.verdict ≠ none)
    (cause : Panic) : Hooked (s.tearDown cause) := by
  cases hr : s.running with
  | false =>
    rw [tearDown_of_not_running hr]
    exact ⟨h.numbers, h.tokens, h.hook, h.registered, h.gone, fun hf hn => .inr (heard hf hn)⟩
  | true =>
    unfold Session.tearDown
    simp only [hr, if_true]
    split
    · rw [vanish, unhookEngine_eq]
      exact h.released rfl rfl rfl (.inr rfl)
    · rw [vanish, unhookEngine_eq, releaseOperations_eq, settleProgress_eq]
      exact h.released rfl rfl rfl (.inr rfl)

theorem advances (h : Hooked s) (hs : Sound s) (hr : s.running = true) (hd : s.doing = [])
    (ha : Advances s t) : Hooked t := by
  have hcan := hs.runs hr
  have hverdict : s.progress.verdict ≠ none → t.progress.verdict ≠ none := by
    intro hv
    obtain ⟨v, hv⟩ := Option.ne_none_iff_exists'.mp hv
    rw [verdict_advances ha hv]
    nofun
  have hgone : ¬ (s.position = .neverRun ∨ s.position = .over) := by
    rintro (hp | hp) <;> rw [hp] at hcan <;> exact hcan
  have same : t.stopSignal = s.stopSignal → t.tokens = s.tokens →
    t.engineHook = s.engineHook → Hooked t := by
    intro hsig htok hh
    refine h.of_same hsig htok hh (fun hp => absurd hp hgone) ?_ hverdict
    rw [hd]
    nofun
  cases ha with
  | shuts hg => rw [wireClosed_eq] at same ⊢; exact same rfl rfl rfl
  | fails hf link => rw [fail_eq] at same ⊢; exact same rfl rfl rfl
  | asks hp hw => rw [passOn_eq] at same ⊢; exact same rfl rfl rfl
  | isDenied hp hw => exact absurd hw (hs.wait?_ne_none hp)
  | concludes hp =>
    rw [conclude_eq, settleProgress_eq] at same ⊢
    exact same rfl rfl rfl
  | finishes hp =>
    rw [finish_eq, unhookEngine_eq]
    exact h.released rfl rfl rfl (.inr rfl)
  | _ => exact same rfl rfl rfl

theorem moves {m : Move} (h : Hooked s) (hs : Sound s) (perm : ∀ l, (s.order l).Perm l)
    (hm : Moves s m t) (quiet : s.raised? m = none) : Hooked t := by
  cases hm with
  | stays => exact h
  | acts a => exact h.act perm a quiet
  | does hd =>
    rw [raised?_of_doing hd] at quiet
    exact h.does perm hd quiet
  | advances hd hr ha => exact h.advances hs hr hd ha
  | hands hp hq =>
    refine h.of_same rfl rfl rfl ?_ .inl id
    rintro (hp' | hp') <;> rw [hp] at hp' <;> cases hp'
  | refuses hp ha =>
    refine h.of_same rfl rfl rfl ?_ .inl id
    rintro (hp' | hp') <;> rw [hp] at hp' <;> cases hp'
  | resumes hr hp hq => exact h.of_same rfl rfl rfl (fun _ => rfl) .inl id
  | misses hr hq hp => exact h.of_same rfl rfl rfl (fun _ => rfl) .inl id
  | drops hr hp =>
    rw [releaseOperations_eq]
    refine h.of_same rfl rfl rfl ?_ .inl id
    rintro (hp' | hp') <;> rw [hp'] at hp <;> exact absurd hp id
  | disowns hp =>
    rw [unhookEngine_eq]
    exact h.released rfl rfl rfl (.inl rfl)
  | shuts => exact h.of_same rfl rfl rfl (fun _ => rfl) .inl id

theorem run {ms : List Move} (h : Hooked s) (hs : Sound s) (perm : ∀ l, (s.order l).Perm l)
    (quiet : s.raised ms = []) : Hooked (s.after ms) := by
  induction ms generalizing s with
  | nil => exact h
  | cons m ms ih =>
    rw [raised, seen, List.append_eq_nil_iff, Option.toList_eq_nil_iff] at quiet
    refine ih (h.moves hs perm (Session.moves s m) quiet.1) (hs.move m) ?_ quiet.2
    rw [order_move]
    exact perm

end Hooked

/-! ### Every run -/

theorem Origin.hooked (o : Origin) : Hooked o.session := by
  refine ⟨?_, nofun, .inr rfl, fun _ _ => List.mem_singleton_self _, nofun, nofun⟩
  intro n slots hs
  cases hs
  exact Nat.one_ne_zero

theorem hooked_after {o : Origin} {ms : List Move} (calm : (o.session.after ms).panicked = none) :
    Hooked (o.session.after ms) := by
  refine calm_induction (P := fun _ s => Hooked s) o.hooked ?_ calm
  rintro ms s m rfl hs hcalm h
  refine h.moves hs ?_ (Session.moves _ m) (raised?_eq_none hcalm)
  rw [order_after]
  exact o.order_perm

/-- A stop has entered a verdict once the engine has heard of it, unless the engine was never handed
over. -/
theorem Hooked.verdict_ne_none {s : Session} (h : Hooked s) (hs : Sound s)
    (hf : s.stopSignal.isFired = true) (hd : .engineStop ∉ s.doing)
    (hp : s.position ≠ .neverRun) : s.progress.verdict ≠ none := by
  by_cases hk : s.engineHook = none
  · have hover : s.position = .over := by
      rcases h.gone hk with hn | hover
      · exact absurd hn hp
      · exact hover
    have hfits := hs.fits
    rw [hover] at hfits
    exact hs.coherent.ne_none_of_ending (.inr hfits)
  · rcases h.heard hf hk with hmem | hv
    · exact absurd hmem hd
    · exact hv

/-- **A stop that was asked for, and has returned, has entered a verdict**, unless the engine was
never handed over. -/
theorem stop_enters_verdict {o : Origin} {ms : List Move}
    (calm : (o.session.after ms).panicked = none)
    (hf : (o.session.after ms).stopSignal.isFired = true)
    (hd : .engineStop ∉ (o.session.after ms).doing)
    (hp : (o.session.after ms).position ≠ .neverRun) :
    (o.session.after ms).progress.verdict ≠ none :=
  (hooked_after calm).verdict_ne_none (sound_after o ms) hf hd hp

end Dialogue.Session
