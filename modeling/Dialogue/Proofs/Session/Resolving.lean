/-
Whoever waits for the end of a session learns of it, unless the report of the end panics.

A `closed` future registers on the closed signal, and a session fires that signal once, when it is
over.  Of the ways a session can end only one does not fire it: a panic in the callback that reports
the end.  By then the session counts as concluded, so whoever tears the future down leaves the rest
alone, and the signal, which fires after the report, is lost for good.

`Enrolled` is the account of the futures: as long as the signal is armed each has a registration of
its own, and once it has fired each was told.  `Announces` lists what a move can do to that account.
-/
import Dialogue.Proofs.Session.Stages
import Dialogue.Proofs.Table

namespace Dialogue.Session

open Broadcast (Signal)

variable {s t : Session}

/-! ### The account of the `closed` futures -/

/-- Every `closed` future is registered to be told, under a hook of its own, or was told. -/
inductive Enrolled (s : Session) : Prop
  | armed {next : Nat} {slots : List (Nat × Nat)} (signal : s.closedSignal = .armed next slots)
      (told : s.told = [])
      (registered : ∀ id w, s.waiters.get? id = some w →
        ∃ hook, w.hook = some hook ∧ hook < next ∧ (hook, w.channel) ∈ slots)
      (apart : ∀ i j v w hook, s.waiters.get? i = some v → s.waiters.get? j = some w →
        v.hook = some hook → w.hook = some hook → i = j)
  | fired (signal : s.closedSignal = .fired)
      (told : ∀ id w, s.waiters.get? id = some w → w.channel ∈ s.told)

theorem mem_readyWaiters {id : Int} {w : Waiter} (hw : s.waiters.get? id = some w)
    (ht : w.channel ∈ s.told) : id ∈ s.readyWaiters :=
  List.mem_map.mpr ⟨(id, w), List.mem_filter.mpr
    ⟨Table.mem_of_get? hw, by simpa using ht⟩, rfl⟩

theorem readyWaiters_of_untold (h : s.told = []) : s.readyWaiters = [] := by
  rw [readyWaiters, h]
  simp

namespace Enrolled

theorem of_same (h : Enrolled s) (signal : t.closedSignal = s.closedSignal)
    (told : t.told = s.told) (waiters : t.waiters = s.waiters) : Enrolled t := by
  cases h with
  | armed hs ht hr ha =>
    exact .armed (signal.trans hs) (told.trans ht) (by rw [waiters]; exact hr)
      (by rw [waiters]; exact ha)
  | fired hs ht =>
    exact .fired (signal.trans hs) (by rw [waiters, told]; exact ht)

/-- Nobody is told before the signal fires. -/
theorem untold (h : Enrolled s) (hf : s.closedSignal.isFired = false) : s.told = [] := by
  cases h with
  | armed hs ht => exact ht
  | fired hs =>
    rw [hs] at hf
    cases hf

/-- Once the signal has fired, every future is ready. -/
theorem ready (h : Enrolled s) (hf : s.closedSignal.isFired = true) {id : Int}
    (hw : (s.waiters.get? id).isSome = true) : id ∈ s.readyWaiters := by
  cases h with
  | armed hs =>
    rw [hs] at hf
    cases hf
  | fired hs ht =>
    obtain ⟨w, hw⟩ := Option.isSome_iff_exists.mp hw
    exact mem_readyWaiters hw (ht id w hw)

/-- Firing tells every future that is registered. -/
theorem fires (h : Enrolled s) (signal : t.closedSignal = .fired)
    (told : t.told = s.closedSignal.slots.map (·.2) ++ s.told) (waiters : t.waiters = s.waiters) :
    Enrolled t := by
  refine .fired signal fun id w hw => ?_
  rw [waiters] at hw
  rw [told]
  cases h with
  | armed hs _ hr _ =>
    obtain ⟨hook, -, -, hmem⟩ := hr id w hw
    rw [hs]
    exact List.mem_append_left _ (List.mem_map.mpr ⟨_, hmem, rfl⟩)
  | fired hs ht => exact List.mem_append_right _ (ht id w hw)

/-- The registrations once a future took the place of one with a hook. -/
def replaced (slots : List (Nat × Nat)) (old : Option Nat) : List (Nat × Nat) :=
  slots.filter fun slot => some slot.1 != old

theorem createWaiter_of_armed {next : Nat} {slots : List (Nat × Nat)}
    (h : s.closedSignal = .armed next slots) (id : Int) :
    s.createWaiter id = { s with
      closedSignal := .armed (next + 1)
        (replaced (slots ++ [(next, s.channels)]) ((s.waiters.get? id).bind (·.hook)))
      waiters := s.waiters.put id ⟨some next, s.channels⟩
      channels := s.channels + 1 } := by
  unfold createWaiter
  simp only [h, Signal.register?]
  cases (s.waiters.get? id).bind (·.hook) with
  | none =>
    have hall : ∀ es : List (Nat × Nat), replaced es none = es := fun _ =>
      List.filter_eq_self.mpr fun _ _ => rfl
    rw [hall]
  | some hook =>
    have hne : ∀ slot : Nat × Nat, (some slot.1 != some hook) = (slot.1 != hook) := fun _ => rfl
    simp only [Signal.disconnect, replaced, hne]

theorem createWaiter_of_fired (h : s.closedSignal = .fired) (id : Int) :
    s.createWaiter id = { s with
      told := s.channels :: s.told
      waiters := s.waiters.put id ⟨none, s.channels⟩
      channels := s.channels + 1 } := by
  unfold createWaiter
  simp only [h, Signal.register?]
  cases (s.waiters.get? id).bind (·.hook) with
  | none => rfl
  | some hook => simp only [Signal.disconnect]

/-- A new future is registered, or told at once; the one it replaces takes nothing away from the
others. -/
theorem joins (h : Enrolled s) (id : Int) : Enrolled (s.createWaiter id) := by
  cases h with
  | @armed next slots hs ht hr ha =>
    rw [createWaiter_of_armed hs]
    have hold : ∀ i v, i ≠ id → s.waiters.get? i = some v →
        ∀ hook, v.hook = some hook → (s.waiters.get? id).bind (·.hook) ≠ some hook := by
      intro i v hi hv hook hhook hsame
      obtain ⟨w, hw, hwhook⟩ := Option.bind_eq_some_iff.mp hsame
      exact hi (ha i id v w hook hv hw hhook hwhook)
    have hbelow : ∀ i v hook, s.waiters.get? i = some v → v.hook = some hook →
        hook < next := by
      intro i v hook hv hhook
      obtain ⟨hook', hhook', hlt, -⟩ := hr i v hv
      rw [hhook] at hhook'
      cases hhook'
      exact hlt
    refine .armed rfl ht ?_ ?_
    · intro i v hv
      rw [Table.get?_put] at hv
      split at hv
      · cases hv
        refine ⟨next, rfl, Nat.lt_succ_self next, List.mem_filter.mpr ⟨by simp, ?_⟩⟩
        rw [bne_iff_ne]
        intro hsame
        obtain ⟨w, hw, hwhook⟩ := Option.bind_eq_some_iff.mp hsame.symm
        exact Nat.lt_irrefl next (hbelow id w next hw hwhook)
      · next hi =>
        obtain ⟨hook, hhook, hlt, hmem⟩ := hr i v hv
        refine ⟨hook, hhook, Nat.lt_succ_of_lt hlt,
          List.mem_filter.mpr ⟨List.mem_append_left _ hmem, ?_⟩⟩
        rw [bne_iff_ne]
        exact (hold i v hi hv hook hhook).symm
    · intro i j v w hook hv hw hvhook hwhook
      rw [Table.get?_put] at hv hw
      split at hv <;> split at hw
      · next hi hj => exact hi.trans hj.symm
      · cases hv
        cases hvhook
        exact absurd (hbelow j w next hw hwhook) (Nat.lt_irrefl next)
      · cases hw
        cases hwhook
        exact absurd (hbelow i v next hv hvhook) (Nat.lt_irrefl next)
      · exact ha i j v w hook hv hw hvhook hwhook
  | fired hs ht =>
    rw [createWaiter_of_fired hs]
    refine .fired hs fun i w hw => ?_
    rw [Table.get?_put] at hw
    split at hw
    · cases hw
      exact List.mem_cons_self
    · exact List.mem_cons_of_mem _ (ht i w hw)

end Enrolled

/-! ### What a move does to the account -/

/-- The handler is being told of the end. -/
def Position.isReporting : Position → Bool
  | concluding _ _ => true
  | _ => false

/-- The panic that is raised in a move by the callback that is told of the end. -/
def reportPanic? (s : Session) (m : Move) : Option String :=
  if s.position.isReporting then s.raised? m else none

/-- The panics that are raised while the end is reported, in order. -/
def reportPanics (s : Session) (ms : List Move) : List String :=
  seen move reportPanic? s ms

/-- The two have the same `closed` futures, told to the same extent. -/
structure SameWaiters (s t : Session) : Prop where
  signal : t.closedSignal = s.closedSignal
  told : t.told = s.told
  waiters : t.waiters = s.waiters

/-- What a move can do to the account of the `closed` futures. -/
inductive Announces (s t : Session) : Option String → Prop
  | keeps (same : SameWaiters s t) (position : t.position = .over ↔ s.position = .over) :
      Announces s t none
  | joins {deeds : List Deed} {id : Int} (ht : t = createWaiter { s with doing := deeds } id) :
      Announces s t none
  /-- The session ends, and its `closed` futures are told. -/
  | fires (unfired : s.position ≠ .over) (hover : t.position = .over)
      (signal : t.closedSignal = .fired)
      (told : t.told = s.closedSignal.slots.map (·.2) ++ s.told)
        (waiters : t.waiters = s.waiters) : Announces s t none
  /-- The session ends, and its `closed` futures are forgotten. -/
  | forgets {message : String} (unfired : s.position ≠ .over) (hover : t.position = .over)
      (same : SameWaiters s t) : Announces s t (some message)

theorem SameWaiters.refl (s : Session) : SameWaiters s s :=
  ⟨rfl, rfl, rfl⟩

/-- An act that makes no future and does not panic leaves the futures alone. -/
theorem sameWaiters_act (s : Session) {a : Act} (hc : ∀ id, a ≠ .closed id)
    (hp : ∀ message, a ≠ .panic message) : SameWaiters s (s.act a) := by
  cases a with
  | send message => rw [act, send_eq]; split <;> exact ⟨rfl, rfl, rfl⟩
  | echo => rw [act, send_eq]; split <;> exact ⟨rfl, rfl, rfl⟩
  | stopWith r => rw [act, chooseReason_eq]; exact ⟨rfl, rfl, rfl⟩
  | panic message => exact absurd rfl (hp message)
  | closed id => exact absurd rfl (hc id)
  | listen id acts => simp only [act, listen, unhookStop_eq]; split <;> exact ⟨rfl, rfl, rfl⟩
  | unlisten id => simp only [act, unlisten, unhookStop_eq]; split <;> exact ⟨rfl, rfl, rfl⟩
  | link a => simp only [act, onLink, touch_eq]; exact ⟨rfl, rfl, rfl⟩
  | _ => exact ⟨rfl, rfl, rfl⟩

/-- A panic inside of the future tells the `closed` futures that the session is over, unless it is
the report of the end that panics. -/
theorem announces_tearDown (hr : s.running = true) (hover : s.position ≠ .over)
    (message : String) : Announces s (s.tearDown (.raised message))
      (if s.position.isReporting then some message else none) := by
  have hpos := (tearDown_of_running hr (.raised message)).position
  generalize ht : s.tearDown (.raised message) = t at hpos ⊢
  unfold tearDown at ht
  simp only [hr, if_true] at ht
  split at ht
  · next r b hp =>
    have hreport : (if s.position.isReporting then some message else none) = some message := by
      rw [hp]
      rfl
    rw [hreport]
    rw [vanish, unhookEngine_eq] at ht
    refine .forgets hover hpos ?_
    rw [← ht]
    exact ⟨rfl, rfl, rfl⟩
  · next hp =>
    have hreport : (if s.position.isReporting then some message else none) = none := by
      cases hq : s.position with
      | concluding r b => exact absurd hq (hp r b)
      | _ => rfl
    rw [hreport]
    rw [vanish, unhookEngine_eq, releaseOperations_eq, settleProgress_eq] at ht
    refine .fires hover hpos ?_ ?_ ?_ <;> rw [← ht] <;> rfl

/-- Before the handler is told of the end, and after, nothing that is not running reports it. -/
theorem Sound.not_reporting (hs : Sound s) (hr : s.running = false) :
    s.position.isReporting = false := by
  have hrest := hs.rests hr
  cases hp : s.position with
  | concluding r b =>
    rw [hp] at hrest
    exact absurd hrest id
  | _ => rfl

/-- What is left to do does not belong to the account. -/
theorem Announces.of_doing {deeds : List Deed} {panic : Option String}
    (h : Announces { s with doing := deeds } t panic) : Announces s t panic := by
  cases h with
  | keeps same position => exact .keeps ⟨same.signal, same.told, same.waiters⟩ position
  | joins ht => exact .joins ht
  | fires unfired hover signal told waiters => exact .fires unfired hover signal told waiters
  | forgets unfired hover same =>
    exact .forgets unfired hover ⟨same.signal, same.told, same.waiters⟩

theorem announces_perform (hs : Sound s) (deeds : List Deed) (d : Deed) :
    Announces s (perform { s with doing := deeds } d)
      (if s.position.isReporting then d.raised? else none) := by
  have kept : ∀ {t : Session}, SameWaiters s t → t.position = s.position →
    d.raised? = none → Announces s t (if s.position.isReporting then d.raised? else none) := by
    intro t same position hd
    rw [hd, ite_self]
    exact .keeps same (by rw [position])
  cases d with
  | act a =>
    by_cases hc : ∃ id, a = .closed id
    · obtain ⟨id, rfl⟩ := hc
      have hnone : (Deed.act (.closed id)).raised? = none := rfl
      rw [hnone, ite_self]
      exact .joins rfl
    · by_cases hp : ∃ message, a = .panic message
      · obtain ⟨message, rfl⟩ := hp
        by_cases hr : s.running = true
        · have hover : s.position ≠ .over := by
            intro hover
            have hcan := hs.runs hr
            rw [hover] at hcan
            exact hcan
          exact (announces_tearDown (s := { s with doing := deeds }) hr hover message).of_doing
        · have hr' : s.running = false := by simpa using hr
          rw [hs.not_reporting hr', perform, act,
            tearDown_of_not_running (s := { s with doing := deeds }) hr']
          exact .keeps ⟨rfl, rfl, rfl⟩ .rfl
      · have hnone : (Deed.act a).raised? = none := by
          cases a with
          | panic message => exact absurd ⟨message, rfl⟩ hp
          | _ => rfl
        obtain ⟨message, -, ha⟩ | ⟨message, ha, -⟩ | ⟨-, ha⟩ :=
          act_cases { s with doing := deeds } a
        · have hsame := sameWaiters_act { s with doing := deeds } (fun id h => hc ⟨id, h⟩)
            (fun message h => hp ⟨message, h⟩)
          refine kept ⟨hsame.signal, hsame.told, hsame.waiters⟩ ?_ hnone
          rw [perform, ha, send_eq]
          split <;> rfl
        · exact absurd ⟨message, ha⟩ hp
        · have hsame := sameWaiters_act { s with doing := deeds } (fun id h => hc ⟨id, h⟩)
            (fun message h => hp ⟨message, h⟩)
          exact kept ⟨hsame.signal, hsame.told, hsame.waiters⟩ ha.position hnone
  | engineStop =>
    refine kept ?_ ?_ rfl <;> rw [perform, onStop_eq]
    exact ⟨rfl, rfl, rfl⟩
  | heard id => exact kept ⟨rfl, rfl, rfl⟩ rfl rfl

/-- The future tells the `closed` futures when it is done with the report. -/
theorem announces_advances (hs : Sound s) (hr : s.running = true) (ha : Advances s t) :
    Announces s t none := by
  have hcan := hs.runs hr
  have hover : s.position ≠ .over := by
    intro hover
    rw [hover] at hcan
    exact hcan
  have on : t.position ≠ .over → SameWaiters s t → Announces s t none :=
    fun hp same => .keeps same ⟨fun h => absurd h hp, fun h => absurd h hover⟩
  cases ha with
  | rests hp => rcases hp with hp | hp | hp <;> rw [hp] at hcan <;> exact absurd hcan id
  | goes hg => exact on (by cases hg <;> rintro ⟨⟩) ⟨rfl, rfl, rfl⟩
  | sleeps hg => exact on (by cases hg <;> rintro ⟨⟩) ⟨rfl, rfl, rfl⟩
  | shuts hg =>
    rw [wireClosed_eq] at on ⊢
    exact on (by cases hg <;> rintro ⟨⟩) ⟨rfl, rfl, rfl⟩
  | fails hf link =>
    rw [fail_eq] at on ⊢
    refine on ?_ ⟨rfl, rfl, rfl⟩
    rcases Sound.position_of_fault hf with hp | ⟨tx, hp⟩ | ⟨rx, tx, hp, -⟩ <;> rw [hp] <;>
      dsimp only <;> split <;> rintro ⟨⟩
  | records hp =>
    refine on ?_ ⟨rfl, rfl, rfl⟩
    show s.position.dismissed ≠ .over
    unfold Position.reported? at hp
    split at hp <;> simp_all [Position.dismissed]
  | hands hp hn hl => exact on hover ⟨rfl, rfl, rfl⟩
  | asks hp hw =>
    rw [passOn_eq] at on ⊢
    exact on (by rintro ⟨⟩) ⟨rfl, rfl, rfl⟩
  | isDenied hp hw => exact absurd hw (hs.wait?_ne_none hp)
  | concludes hp =>
    rw [conclude_eq, settleProgress_eq] at on ⊢
    exact on (by rintro ⟨⟩) ⟨rfl, rfl, rfl⟩
  | finishes hp =>
    rw [finish_eq, unhookEngine_eq]
    exact .fires hover rfl rfl rfl rfl
  | _ => exact on (by rintro ⟨⟩) ⟨rfl, rfl, rfl⟩

/-- Without panics the report of the end does not panic. -/
theorem reportPanics_of_quiet {ns : List Move} (quiet : s.raised ns = []) :
    s.reportPanics ns = [] := by
  induction ns generalizing s with
  | nil => rfl
  | cons m ns ih =>
    rw [raised, seen, List.append_eq_nil_iff, Option.toList_eq_nil_iff] at quiet
    rw [reportPanics, seen, List.append_eq_nil_iff, Option.toList_eq_nil_iff]
    refine ⟨?_, ih quiet.2⟩
    rw [reportPanic?, quiet.1]
    exact ite_self none

theorem announces_move (hs : Sound s) (m : Move) :
    Announces s (s.move m) (s.reportPanic? m) := by
  by_cases htick : m = .tick
  · subst htick
    cases hd : s.doing with
    | cons d rest =>
      rw [reportPanic?, raised?_of_doing hd, tick_of_cons hd]
      exact announces_perform hs rest d
    | nil =>
      have hnone : s.reportPanic? .tick = none := by
        rw [reportPanic?, raised?, performed?, hd]
        exact ite_self none
      rw [hnone]
      cases hr : s.running with
      | true =>
        rw [tick_of_running hd hr]
        exact announces_advances hs hr (Session.advances s)
      | false =>
        rw [tick_of_quiet hd hr]
        exact .keeps (.refl s) .rfl
  · by_cases hact : ∃ a, m = .act a
    · obtain ⟨a, rfl⟩ := hact
      exact announces_perform hs s.doing (.act a)
    · have hnone : s.reportPanic? m = none := by
        rw [reportPanic?, raised?]
        cases m with
        | tick => exact absurd rfl htick
        | act a => exact absurd ⟨a, rfl⟩ hact
        | _ => exact ite_self none
      rw [hnone]
      have hm := moves s m
      generalize s.move m = t at hm ⊢
      cases hm with
      | stays => exact .keeps (.refl s) .rfl
      | acts a => exact absurd ⟨a, rfl⟩ hact
      | does hd => exact absurd rfl htick
      | advances hd hr ha => exact absurd rfl htick
      | hands hp hq => exact .keeps ⟨rfl, rfl, rfl⟩ (by rw [hp]; constructor <;> rintro ⟨⟩)
      | refuses hp ha =>
        exact .keeps ⟨rfl, rfl, rfl⟩ (by rw [hp]; constructor <;> rintro ⟨⟩)
      | resumes hr hp hq => exact .keeps ⟨rfl, rfl, rfl⟩ .rfl
      | misses hr hq hp => exact .keeps ⟨rfl, rfl, rfl⟩ .rfl
      | drops hr hp =>
        rw [releaseOperations_eq]
        refine .keeps ⟨rfl, rfl, rfl⟩ ⟨by rintro ⟨⟩, fun hover => ?_⟩
        rw [hover] at hp
        exact absurd hp id
      | disowns hp =>
        rw [unhookEngine_eq]
        exact .keeps ⟨rfl, rfl, rfl⟩ (by rw [hp]; constructor <;> rintro ⟨⟩)
      | shuts => exact .keeps ⟨rfl, rfl, rfl⟩ .rfl

/-! ### Every run -/

/-- The closed signal fires when the session is over, unless the report of the end panicked. -/
structure Resolves (s : Session) (panics : List String) : Prop where
  enrolled : Enrolled s
  /-- Before the end the signal is armed, and the end was not reported. -/
  before : s.position ≠ .over → s.closedSignal.isFired = false ∧ panics = []
  fired : s.position = .over → (s.closedSignal.isFired = true ↔ panics = [])

theorem isFired_createWaiter (s : Session) (id : Int) :
    (s.createWaiter id).closedSignal.isFired = s.closedSignal.isFired := by
  cases h : s.closedSignal with
  | armed next slots =>
    rw [Enrolled.createWaiter_of_armed h]
    rfl
  | fired =>
    rw [Enrolled.createWaiter_of_fired h, h]

theorem position_createWaiter (s : Session) (id : Int) :
    (s.createWaiter id).position = s.position :=
  (aside_createWaiter s id).position

theorem Resolves.step {panics : List String} {panic : Option String} (h : Resolves s panics)
    (ha : Announces s t panic) : Resolves t (panics ++ panic.toList) := by
  cases ha with
  | keeps same position =>
    refine ⟨h.enrolled.of_same same.signal same.told same.waiters, ?_, ?_⟩
    all_goals rw [same.signal, Option.toList_none, List.append_nil]
    · exact fun hp => h.before fun hs => hp (position.mpr hs)
    · exact fun hp => h.fired (position.mp hp)
  | @joins deeds id ht =>
    subst ht
    have hsame : Enrolled { s with doing := deeds } := h.enrolled.of_same rfl rfl rfl
    refine ⟨hsame.joins id, ?_, ?_⟩
    all_goals
      rw [isFired_createWaiter, position_createWaiter, Option.toList_none, List.append_nil]
    · exact h.before
    · exact h.fired
  | fires unfired hover signal told waiters =>
    obtain ⟨-, hnone⟩ := h.before unfired
    refine ⟨h.enrolled.fires signal told waiters, fun hp => absurd hover hp, fun _ => ?_⟩
    rw [signal, hnone]
    exact ⟨fun _ => rfl, fun _ => rfl⟩
  | @forgets message unfired hover same =>
    obtain ⟨harmed, -⟩ := h.before unfired
    refine ⟨h.enrolled.of_same same.signal same.told same.waiters, fun hp => absurd hover hp,
      fun _ => ?_⟩
    rw [same.signal, harmed]
    simp

theorem Announces.over {panic : Option String} (ha : Announces s t panic)
    (hp : s.position = .over) : t.position = .over ∧ panic = none := by
  cases ha with
  | keeps same position => exact ⟨position.mpr hp, rfl⟩
  | joins ht =>
    subst ht
    rw [position_createWaiter]
    exact ⟨hp, rfl⟩
  | fires unfired => exact absurd hp unfired
  | forgets unfired => exact absurd hp unfired

theorem Origin.resolves (o : Origin) : Resolves o.session [] :=
  ⟨.armed rfl rfl (fun _ _ h => by cases h) (fun _ _ _ _ _ h => by cases h),
    fun _ => ⟨rfl, rfl⟩, nofun⟩

theorem resolves_after (o : Origin) (ms : List Move) :
    Resolves (o.session.after ms) (o.session.reportPanics ms) := by
  refine after_induction (P := fun ms s => Resolves s (o.session.reportPanics ms)) o.resolves ?_ ms
  intro ms m h
  rw [reportPanics, seen_concat]
  exact h.step (announces_move (sound_after o ms) m)

/-- A session that is over stays so, and reports nothing more. -/
theorem over_append {o : Origin} {ms : List Move} (h : (o.session.after ms).position = .over)
    (ns : List Move) : (o.session.after (ms ++ ns)).position = .over ∧
      o.session.reportPanics (ms ++ ns) = o.session.reportPanics ms := by
  induction ns using List.reverseRecOn with
  | nil => rw [List.append_nil]; exact ⟨h, rfl⟩
  | append_singleton ns m ih =>
    obtain ⟨hover, hpanics⟩ := ih
    have hmove := announces_move (sound_after o (ms ++ ns)) m
    obtain ⟨hover', hquiet⟩ := hmove.over hover
    rw [← List.append_assoc, after_concat]
    refine ⟨hover', ?_⟩
    rw [reportPanics, seen_concat, ← reportPanics, hpanics]
    show _ ++ ((o.session.after (ms ++ ns)).reportPanic? m).toList = _
    rw [hquiet]
    exact List.append_nil _

/-- The number of a future that somebody holds. -/
def IsHeld (s : Session) (id : Int) : Prop :=
  (s.waiters.get? id).isSome = true

theorem isClosed_of_over (hs : Sound s) (h : s.position = .over) : s.isClosed = true := by
  have hfits := hs.fits
  rw [h] at hfits
  exact decide_eq_true hfits

theorem ready_of_over {o : Origin} {ms : List Move} (h : (o.session.after ms).position = .over)
    (quiet : o.session.reportPanics ms = []) {id : Int} (hid : (o.session.after ms).IsHeld id) :
    id ∈ (o.session.after ms).readyWaiters := by
  have hresolves := resolves_after o ms
  exact hresolves.enrolled.ready ((hresolves.fired h).mpr quiet) hid

theorem pending_of_over {o : Origin} {ms : List Move} (h : (o.session.after ms).position = .over)
    (panics : o.session.reportPanics ms ≠ []) : (o.session.after ms).readyWaiters = [] := by
  have hresolves := resolves_after o ms
  refine readyWaiters_of_untold (hresolves.enrolled.untold ?_)
  rw [Bool.eq_false_iff]
  exact fun hfired => panics ((hresolves.fired h).mp hfired)

/--
**Once a session is over it is closed for good, and its `closed` futures are ready, unless the
report of the end panicked.**

That holds of the futures that were made before and of those that are made later, whatever else
panicked.  If the callback that is told of the end panics, however, none of them is ever ready,
though the session shows itself closed.  Before the end none is ready either.
-/
theorem resolves_of_run (o : Origin) (ms : List Move) :
    ((o.session.after ms).position ≠ .over → (o.session.after ms).readyWaiters = []) ∧
    ((o.session.after ms).position = .over → ∀ ns,
      (o.session.after (ms ++ ns)).position = .over ∧
      (o.session.after (ms ++ ns)).isClosed = true ∧
      (o.session.reportPanics ms = [] → ∀ id, (o.session.after (ms ++ ns)).IsHeld id →
        id ∈ (o.session.after (ms ++ ns)).readyWaiters) ∧
      (o.session.reportPanics ms ≠ [] → (o.session.after (ms ++ ns)).readyWaiters = [])) := by
  refine ⟨fun hp => ?_, fun hp ns => ?_⟩
  · have h := resolves_after o ms
    exact readyWaiters_of_untold (h.enrolled.untold (h.before hp).1)
  · obtain ⟨hover, hpanics⟩ := over_append hp ns
    refine ⟨hover, isClosed_of_over (sound_after o _) hover, ?_, ?_⟩
    · intro hquiet id hid
      exact ready_of_over hover (hpanics.trans hquiet) hid
    · intro hpanicked
      exact pending_of_over hover (by rwa [hpanics])

/-- A handler that panics when it is told of the end. -/
def Origin.brokenReport : Origin where
  handler := { onClosed := fun _ => [.panic "boom"] }

/-- Somebody waits for the end of a session that is stopped before it begins. -/
def stoppedAtOnce : List Move :=
  [.act (.closed 1), .spawn, .act .stop] ++ .replicate 2 .tick ++ .turn :: .replicate 4 .tick

/-- With such a handler the session is closed, and whoever waits for its end waits for ever. -/
theorem pending_of_brokenReport :
    (Origin.brokenReport.session.after stoppedAtOnce).position = .over ∧
      (Origin.brokenReport.session.after stoppedAtOnce).IsHeld 1 ∧
      ∀ ns, (Origin.brokenReport.session.after (stoppedAtOnce ++ ns)).isClosed = true ∧
        (Origin.brokenReport.session.after (stoppedAtOnce ++ ns)).readyWaiters = [] := by
  have hover : (Origin.brokenReport.session.after stoppedAtOnce).position = .over := by
    decide +kernel
  have hpanics : Origin.brokenReport.session.reportPanics stoppedAtOnce ≠ [] := by decide +kernel
  refine ⟨hover, ?_, fun ns => ?_⟩
  · show (_ : Bool) = true
    decide +kernel
  · obtain ⟨hover', hsame⟩ := over_append hover ns
    exact ⟨isClosed_of_over (sound_after _ _) hover', pending_of_over hover' (by rwa [hsame])⟩

end Dialogue.Session
