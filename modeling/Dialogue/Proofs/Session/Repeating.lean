/-
A further stop changes nothing.

Once the engine has learned of a stop, or a failure was recorded, there is a verdict, and a call to
stop does at most one thing more: if nobody had called before, it fires the stop signal.  So there
are two cases.  After an earlier call a further one leaves the session exactly as it is.  Without an
earlier call, which is possible when the session failed, the callbacks on the stop token run in
addition, and the two sessions, the one with the further calls and the one without, go on side by
side: nobody but a callback on the stop token can tell them apart.

That takes for granted that no such callback is felt where it runs in one of the two sessions and
not, or not then, in the other.  It is felt if it acts on the connection, and if it panics in the
middle of a poll, for then it takes the future with it.  The two sessions at the end of this file
differ for these reasons.
-/
import Dialogue.Proofs.Session.Abreast
import Dialogue.Proofs.Session.Dropping

namespace Dialogue.Session

variable {s t : Session}

/-! ### The first call has returned -/

/-- The first call to stop has reached the engine: nothing panicked on the way, and the engine has
done the deed that the call listed for it, as it has when the call returns. -/
def StopReturned (o : Origin) (ms : List Move) : Prop :=
  ∃ before m call inside rest, ms = before ++ m :: inside ++ rest ∧
    o.session.stopCalls before = [] ∧ (o.session.after before).stopCall? m = some call ∧
    ((o.session.after before).move m).raised inside = [] ∧
    .engineStop ∉ (o.session.after (before ++ m :: inside)).doing

theorem raised?_of_stopCall {m : Move} {call : Option CloseReason} (h : s.stopCall? m = some call) :
    s.raised? m = none := by
  rw [stopCall?] at h
  rw [raised?]
  cases ha : s.performed? m with
  | none => rfl
  | some a =>
    rw [ha] at h
    cases a with
    | panic message => cases h
    | _ => rfl

theorem position_of_neverRun {o : Origin} {ms : List Move}
    (h : (o.session.after ms).position = .neverRun) (ns : List Move) :
    (o.session.after (ms ++ ns)).position = .neverRun := by
  induction ns using List.reverseRecOn with
  | nil => rwa [List.append_nil]
  | append_singleton ns n ih =>
    have hs := sound_after o (ms ++ ns)
    rw [← List.append_assoc, after_concat]
    exact (Beside.of_gone hs (.inl ih) n).position.trans ih

namespace StopReturned

variable {o : Origin} {ms : List Move}

theorem isFired (h : StopReturned o ms) : (o.session.after ms).stopSignal.isFired = true := by
  obtain ⟨before, m, call, inside, rest, rfl, -, hcall, -⟩ := h
  rw [← Bool.not_eq_false, isFired_after]
  intro hnone
  have hsplit : before ++ m :: inside ++ rest = before ++ [m] ++ (inside ++ rest) := by simp
  rw [hsplit, stopCalls, seen_append, ← stopCalls, stopCalls_concat, hcall] at hnone
  simp at hnone

/-- A stop that reached the engine has entered a verdict, unless nobody will ever run the
session. -/
theorem verdict (h : StopReturned o ms) (hp : (o.session.after ms).position ≠ .neverRun) :
    (o.session.after ms).progress.verdict ≠ none := by
  obtain ⟨before, m, call, inside, rest, rfl, hfirst, hcall, hquiet, hdone⟩ := h
  have perm : ∀ l, ((o.session.after before).order l).Perm l := by
    rw [order_after]
    exact o.order_perm
  have hooked : Hooked (o.session.after (before ++ m :: inside)) := by
    rw [after_append]
    refine (hooked_of_unasked hfirst).run (sound_after o before) perm ?_
    rw [raised, seen, raised?_of_stopCall hcall]
    exact hquiet
  have hfired : (o.session.after (before ++ m :: inside)).stopSignal.isFired = true := by
    refine isFired ⟨before, m, call, inside, [], ?_, hfirst, hcall, hquiet, hdone⟩
    rw [List.append_nil]
  have hjudged : (o.session.after (before ++ m :: inside)).progress.verdict ≠ none := by
    by_cases hhook : (o.session.after (before ++ m :: inside)).engineHook = none
    · rcases hooked.gone hhook with hnever | hover
      · exact absurd (position_of_neverRun hnever rest) hp
      · have hs := sound_after o (before ++ m :: inside)
        have hfits := hs.fits
        rw [hover] at hfits
        exact hs.coherent.ne_none_of_ending (.inr hfits)
    · exact (hooked.heard hfired hhook).resolve_left hdone
  obtain ⟨v, hv⟩ := Option.ne_none_iff_exists'.mp hjudged
  rw [after_append, verdict_after hv rest]
  exact Option.some_ne_none v

end StopReturned

/-! ### Callbacks with further calls -/

/-- The act calls for a stop. -/
def Act.isCall (a : Act) : Bool :=
  a.stop?.isSome

@[inherit_doc Act.isCall]
def Deed.isCall : Deed → Bool
  | act a => a.isCall
  | engineStop | heard _ => false

/-- The session whose callbacks make no calls to stop, neither those of its handler nor those in
progress. -/
def withoutCalls (s : Session) : Session :=
  { s with
    doing := s.doing.filter (!·.isCall)
    opening := s.opening.filter (!·.isCall)
    handler := s.handler.only (!·.isCall) }

theorem gist_withoutCalls (s : Session) : s.withoutCalls.gist = s.gist := by
  have hact : ∀ a : Act, (a.isFelt && !a.isCall) = a.isFelt := by
    intro a
    cases a with
    | listen id acts => exact Bool.and_true _
    | _ => rfl
  have hdeed : ∀ d : Deed, (d.isFelt && !d.isCall) = d.isFelt := by
    intro d
    cases d with
    | act a => exact hact a
    | _ => rfl
  simp [withoutCalls, gist, Handler.only, hact, hdeed]

theorem Deed.isUnlinked_of_call {d : Deed} (h : d.isCall = true) : d.isUnlinked = true := by
  cases d with
  | act a =>
    cases a with
    | stop | stopWith r => rfl
    | _ => cases h
  | engineStop => rfl
  | heard id => rfl

/-- A session that differs from a stopped one in such calls is stopped. -/
theorem Stopped.of_withoutCalls (hs : Stopped s) (h : t.withoutCalls = s.withoutCalls) :
    Stopped t := by
  have haside : Aside s t :=
    .of_eq (congrArg Session.progress h :) (congrArg Session.outbox h :)
      (congrArg Session.failure h :) (congrArg Session.position h :)
      (congrArg Session.running h :) (congrArg Session.log h :)
      (congrArg Session.result h :) (congrArg Session.panicked h :)
  have hprogress : t.progress = s.progress := (congrArg Session.progress h :)
  have horder : t.order = s.order := (congrArg Session.order h :)
  have hsignal : t.stopSignal = s.stopSignal := (congrArg Session.stopSignal h :)
  refine ⟨⟨hs.sound.aside haside, ?_, ?_⟩, ?_⟩
  · rw [hprogress]
    exact hs.verdict
  · rw [horder]
    exact hs.perm
  · rw [hsignal]
    exact hs.fired

/-- A session to which a further call was made goes beside the session as it was, if that bears what
the call sets off. -/
theorem alike_of_withoutCalls (hs : Judged s) (idle : IsIdle s) (bears : s.Bears s.listed)
    {call : Option CloseReason} (h : t.withoutCalls = (s.act (.ofCall call)).withoutCalls)
    (ns : List Move) : Stopped t ∧ Alike s t ns := by
  have hfires : s.act (.ofCall call) = s.fireStop := by
    cases call with
    | none => rfl
    | some r =>
      show (s.chooseReason r).fireStop = s.fireStop
      rw [chooseReason_of_judged hs.verdict]
  have hjudged := hs.move (.act (.ofCall call))
  rw [move, hfires] at hjudged
  rw [hfires] at h
  have hgist : t.gist = s.fireStop.gist := by
    rw [← gist_withoutCalls t, h, gist_withoutCalls]
  refine ⟨Stopped.of_withoutCalls ⟨hjudged, rfl⟩ h, ?_⟩
  by_cases hmeek : ∀ d ∈ s.listed, d.isMeek = true
  · exact .same (hgist.trans (gist_fireStop hmeek))
  have hr := bears.not_running hmeek
  have hd := idle (hs.unfired hmeek) hr
  refine .apart (.of_done hr hd) ⟨(congrArg Session.running hgist :).trans hr, fun d hmem => ?_⟩
    ((hushed_of_gist hgist).trans rfl) (.of_idle hd ns)
  by_cases hcall : d.isCall = true
  · exact Deed.isUnlinked_of_call hcall
  · have hkept : d ∈ t.doing.filter (!·.isCall) :=
      List.mem_filter.mpr ⟨hmem, by simpa using hcall⟩
    have hdoing : t.doing.filter (!·.isCall) = s.fireStop.doing.filter (!·.isCall) :=
      congrArg Session.doing h
    rw [hdoing] at hkept
    have hlisted := (List.mem_filter.mp hkept).1
    rw [doing_fireStop, hd, List.append_nil] at hlisted
    exact bears.unlinked d hlisted

/-! ### Every run -/

/-- Two sessions that nobody can tell apart but a callback on the stop token. -/
structure Agrees (s t : Session) : Prop where
  /-- The state, whether a message is being written, what ended the session, and the close
  reason. -/
  progress : t.progress = s.progress
  /-- What the handler was told and what was done to the connection, in order. -/
  chronicle : t.chronicle = s.chronicle
  result : t.result = s.result
  failure : t.failure = s.failure
  outbox : t.outbox = s.outbox
  link : t.link = s.link
  position : t.position = s.position
  running : t.running = s.running
  queued : t.queued = s.queued

theorem Agrees.of_hushed (h : t.hushed.gist = s.hushed.gist) : Agrees s t where
  progress := (congrArg Session.progress h :)
  chronicle := (chronicle_gist t.hushed).symm.trans
    ((congrArg Session.chronicle h).trans (chronicle_gist s.hushed))
  result := (congrArg Session.result h :)
  failure := (congrArg Session.failure h :)
  outbox := (congrArg Session.outbox h :)
  link := (congrArg Session.link h :)
  position := (congrArg Session.position h :)
  running := (congrArg Session.running h :)
  queued := (congrArg Session.queued h :)

/-- The second session agrees with the first, and comes to rest by itself when the first does. -/
structure Follows (s t : Session) : Prop where
  agrees : Agrees s t
  rests : s.isQuiet = true → ∃ n, (t.after (.replicate n .tick)).isQuiet = true ∧
    Agrees s (t.after (.replicate n .tick))

theorem Alike.follows {ns : List Move} (h : Alike s t ns) (ht : Stopped t) : Follows s t := by
  refine ⟨.of_hushed h.hushed, fun quiet => ?_⟩
  simp only [isQuiet, Bool.and_eq_true, List.isEmpty_iff, Bool.not_eq_true'] at quiet
  obtain ⟨n, hlevel⟩ := h.settles ht
  have hagrees := Agrees.of_hushed hlevel.alike.hushed
  refine ⟨n, ?_, hagrees⟩
  cases hlevel with
  | same gist head =>
    have hdoing := doing_of_gist gist
    rw [quiet.1] at hdoing
    rw [isQuiet, nothing_of_caughtUp head hdoing, hagrees.running, quiet.2]
    rfl
  | apart here busy done gist returns => exact absurd quiet.1 busy

/--
**Further stops change nothing**, once the first has reached the engine, or something else has ended
the session.

If somebody had called before, a call leaves the session exactly as it is, whoever makes it and
whenever, and so the run with further calls leads to the very same states as the run without them.

In any case nobody but a callback on the stop token can tell the two runs apart.  The second may
differ from the first in a call that is made now and in others that follow it at any points, made by
others, by the handler, by whoever acts at the start of the handshake, or by a callback in progress.
After every move the two have told the handler the same, have done the same to the connection, are
in the same state and have the same result.  The second may take more steps of its own, for what the
callbacks on the stop token do in addition.

If nobody had called before, callbacks on the stop token run in the second session and not, or not
then, in the first.  These act on nothing that belongs to the connection, and where they run in the
middle of a poll they do not panic.
-/
theorem repeats_of_run (o : Origin) (ms : List Move)
    (hp : (o.session.after ms).position ≠ .neverRun)
    (h : StopReturned o ms ∨ (o.session.after ms).progress.verdict ≠ none) :
    (o.session.stopCalls ms ≠ [] → ∀ ns,
      (∀ call, (o.session.after (ms ++ ns)).act (.ofCall call) = o.session.after (ms ++ ns)) ∧
      ∀ calls, o.session.after (ms ++ withCalls calls (fun _ => 0) (fun _ => 1) ns)
        = o.session.after (ms ++ ns)) ∧
    ∀ ns, (o.session.stopCalls ms = [] →
        (o.session.after ms).Bears (o.session.after ms).listed ∧
          (o.session.after ms).Spares ns) →
      ∀ call, ∀ t : Session,
        t.withoutCalls = ((o.session.after ms).act (.ofCall call)).withoutCalls →
        ∀ calls, ∃ rests pace, ∀ i, Follows (o.session.after (ms ++ ns.take i))
          (t.after (withCalls calls rests pace (ns.take i))) := by
  have perm : ∀ l, ((o.session.after ms).order l).Perm l := by
    rw [order_after]
    exact o.order_perm
  have hjudged : Judged (o.session.after ms) := by
    refine ⟨sound_after o ms, ?_, perm⟩
    rcases h with hreturned | hverdict
    · exact hreturned.verdict hp
    · exact hverdict
  have stopped : o.session.stopCalls ms ≠ [] → Stopped (o.session.after ms) :=
    fun hcalled => ⟨hjudged, isFired_of_asked hcalled⟩
  refine ⟨fun hcalled ns => ⟨fun call => ?_, fun calls => ?_⟩, ?_⟩
  · rw [after_append]
    refine ((stopped hcalled).after ns).call ?_
    rw [Act.stop?_ofCall]
    exact Option.some_ne_none call
  · rw [after_append, after_append]
    exact (stopped hcalled).withCalls calls ns
  · intro ns hspares call t hcalls calls
    obtain ⟨hbears, hspares⟩ :
        (o.session.after ms).Bears (o.session.after ms).listed ∧
          (o.session.after ms).Spares ns := by
      by_cases hcalled : o.session.stopCalls ms = []
      · exact hspares hcalled
      · exact ⟨(stopped hcalled).bears, (stopped hcalled).spares ns⟩
    obtain ⟨ht, halike⟩ := alike_of_withoutCalls hjudged (isIdle_after o ms) hbears hcalls ns
    obtain ⟨rests, pace, hrun⟩ := halike.run hjudged (isIdle_after o ms) ht hspares calls
    refine ⟨rests, pace, fun i => ?_⟩
    rw [after_append]
    exact (hrun i).2.follows (hrun i).1

/-- Two more calls at every point, the second with a reason of its own. -/
def twoCalls (_ : Nat) : List (Option CloseReason) :=
  [none, some (.normal "bye")]

/-- The session with the stuck write can write at last, and its future is polled. -/
def released : List Move :=
  .act (.link .release) :: .turn :: .replicate 12 .tick

/-- The session with the stuck write loses its peer.  Somebody waits for its end, and a callback is
on its stop token. -/
def lostWith (acts : List Act) : List Move :=
  .act (.closed 1) :: .act (.listen 1 acts) :: failedMidWrite

/-- Neither the stop nor the failure of the session with the stuck write is affected by further
calls, although the callback on its stop token panics. -/
theorem repeats_of_stuckWrite :
    Origin.stuckWrite.session.after
          (stoppedMidWrite ++ withCalls twoCalls (fun _ => 0) (fun _ => 1) released)
        = Origin.stuckWrite.session.after (stoppedMidWrite ++ released) ∧
      ∃ rests pace, ∀ i, Follows
        (Origin.stuckWrite.session.after (lostWith [.note, .panic "lost"] ++ released.take i))
        (((Origin.stuckWrite.session.after (lostWith [.note, .panic "lost"])).act .stop).after
          (withCalls twoCalls rests pace (released.take i))) := by
  have hstopped : StopReturned Origin.stuckWrite stoppedMidWrite := by
    refine ⟨.serve :: .poll :: .replicate 12 .tick, .act .stop, none, [.tick], [], rfl, ?_,
      rfl, ?_, ?_⟩
    · decide +kernel
    · decide +kernel
    · have hdone : (Origin.stuckWrite.session.after stoppedMidWrite).doing.isEmpty = true := by
        decide +kernel
      rw [List.isEmpty_iff] at hdone
      show _ ∉ (Origin.stuckWrite.session.after stoppedMidWrite).doing
      rw [hdone]
      nofun
  have hstands : (Origin.stuckWrite.session.after stoppedMidWrite).position ≠ .neverRun := by
    decide +kernel
  have hasked : Origin.stuckWrite.session.stopCalls stoppedMidWrite ≠ [] := by decide +kernel
  have hstands' : (Origin.stuckWrite.session.after
      (lostWith [.note, .panic "lost"])).position ≠ .neverRun := by decide +kernel
  have hfailed : (Origin.stuckWrite.session.after
      (lostWith [.note, .panic "lost"])).progress.verdict ≠ none := by decide +kernel
  have hbears : (Origin.stuckWrite.session.after (lostWith [.note, .panic "lost"])).Bears
      (Origin.stuckWrite.session.after (lostWith [.note, .panic "lost"])).listed := by
    have hunlinked : (Origin.stuckWrite.session.after
        (lostWith [.note, .panic "lost"])).listed.all Deed.isUnlinked = true := by decide +kernel
    have hidle : (Origin.stuckWrite.session.after
        (lostWith [.note, .panic "lost"])).running = false := by decide +kernel
    refine ⟨List.all_eq_true.mp hunlinked, fun hr => ?_⟩
    rw [hidle] at hr
    cases hr
  have hspares : (Origin.stuckWrite.session.after
      (lostWith [.note, .panic "lost"])).Spares released := by
    have hmute : (seen move performed? (Origin.stuckWrite.session.after
        (lostWith [.note, .panic "lost"])) released).all (!·.hasSay) = true := by decide +kernel
    refine .of_mute fun a ha => ?_
    simpa using List.all_eq_true.mp hmute a ha
  obtain ⟨hsame, -⟩ := repeats_of_run Origin.stuckWrite stoppedMidWrite hstands (.inl hstopped)
  obtain ⟨-, hfollows⟩ :=
    repeats_of_run Origin.stuckWrite (lostWith [.note, .panic "lost"]) hstands' (.inr hfailed)
  exact ⟨(hsame hasked released).2 twoCalls,
    hfollows released (fun _ => ⟨hbears, hspares⟩) none _ rfl twoCalls⟩

/-- The session whose handler calls for a stop when it is told of the end. -/
def stoppingAtEnd (s : Session) : Session :=
  { s with handler := { s.handler with onClosed := fun _ => [.stop] } }

/--
What a callback on the stop token does is felt by a session whose peer is lost.

If the callback panics, a stop that the handler calls for when it is told of the end takes the
future with it: there is no result, and whoever waits for the end waits for ever.  If the handler
does so in any case, a stop before has the callback panic where it does no harm.  And a callback may
act on the connection, so that what was being written is written.
-/
theorem differs_of_felt :
    ((Origin.stuckWrite.session.after (lostWith [.panic "lost"] ++ released)).result
        = some (.transport .read "reset") ∧
      (Origin.stuckWrite.session.after (lostWith [.panic "lost"] ++ released)).readyWaiters
        = [1] ∧
      (((Origin.stuckWrite.session.after (lostWith [.panic "lost"])).stoppingAtEnd).after
        released).position = .over ∧
      (((Origin.stuckWrite.session.after (lostWith [.panic "lost"])).stoppingAtEnd).after
        released).result = none ∧
      (((Origin.stuckWrite.session.after (lostWith [.panic "lost"])).stoppingAtEnd).after
        released).readyWaiters = []) ∧
    (Origin.stuckWrite.session.stoppingAtEnd.after (lostWith [.panic "lost"] ++ released)).result
        = none ∧
    (Origin.stuckWrite.session.stoppingAtEnd.after
        (lostWith [.panic "lost"] ++ [.act .stop, .tick, .tick, .tick] ++ released)).result
          = some (.transport .read "reset") ∧
    (Origin.stuckWrite.session.after
        (lostWith [.link .release] ++ .turn :: .replicate 8 .tick)).progress.transmission
          = .sending ∧
    (Origin.stuckWrite.session.after
        (lostWith [.link .release] ++ [.act .stop, .tick, .tick, .tick] ++
          .turn :: .replicate 8 .tick)).progress.transmission = .idle := by
  decide +kernel

end Dialogue.Session
