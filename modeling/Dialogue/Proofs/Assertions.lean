/-
What the library asserts of itself.

In four places the code relies on something that nobody checks before.  The transmit region takes it
for granted that nobody waits on the outbox when it is about to; and whoever runs a callback, the
job of a queue, the firing of a signal or a registration that comes too late, takes it for granted
that the one-shot it was handed has a callable in it.  Each would panic if it were not so.

Both are questions of who has what.  A wait on the outbox is the transmit region's own, and is over
by the time the region asks again.  A one-shot is moved and never copied, so whoever is handed one
is the only one who can have called it.
-/
import Dialogue.Proofs.Depot
import Dialogue.Proofs.Session.Signals

namespace Dialogue

namespace Session

/-- Nobody but the transmit region waits on the outbox, so the region never finds another wait
there. -/
structure OwnsOutbox (s : Session) : Prop where
  /-- The wait on the outbox, if there is one, is the one that the transmit region waits for. -/
  owner : s.outbox.waiting.ticket? = s.position.ticket?
  /-- Where the region is about to wait, nobody waits, and its own wait begins. -/
  free : ∀ turn rx, s.position = .active turn rx .asking →
    s.outbox.isWaiting = false ∧ ∃ r, s.outbox.wait? (.future · none) = some r
  panicked : s.panicked ≠ some .outboxTaken

theorem Sound.ownsOutbox {s : Session} (h : Sound s) : s.OwnsOutbox := by
  refine ⟨h.ticket, ?_, ?_⟩
  · intro turn rx hp
    refine ⟨?_, Option.ne_none_iff_exists'.mp (h.wait?_ne_none hp)⟩
    rw [Handoff.Queue.isWaiting, h.ticket, hp]
    rfl
  · intro htaken
    have hpanics := h.panics
    rw [htaken] at hpanics
    obtain hnone | ⟨message, hraised⟩ := hpanics
    · cases hnone
    · cases hraised

/-- The transmit region of a session that has connected and finds no frame to read asks next. -/
example : (({ link := { outcome := some (.ok ()) } } : Origin).session.after
    (.serve :: .poll :: .replicate 5 .tick)).position = .active .transmit .reading .asking := rfl

end Session

/-- **No assertion of the library fails.**  The transmit region is granted every wait on the outbox,
and no callback that waits, is registered or was handed out is in an empty one-shot, so that no call
of it is refused.  The latter is said of depots, which are what their operations make of queues and
of signals; and every signal of a registry or of a session is such a signal. -/
theorem assertions_of_run :
    (∀ (o : Session.Origin) (ms : List Session.Move),
      (o.session.after ms).OwnsOutbox ∧ (o.session.after ms).SignalsLive) ∧
    (∀ ops : List Broadcast.Op, (Broadcast.Registry.after {} ops).SignalsLive) ∧
    ∀ {α κ ω : Type} (recipe : κ → OneShot.Recipe) (n : Nat)
      (ms : List (Depot.Move α κ ω)),
      (Depot.after recipe n ms).Mirrors n ms ∧ (Depot.after recipe n ms).IsStocked recipe ∧
        ∀ h ∈ (Depot.after recipe n ms).kept,
          ((Depot.after recipe n ms).content h).isEmpty = false ∧
            ((Depot.after recipe n ms).content h).IsAnswered := by
  refine ⟨?_, Broadcast.Registry.signalsLive_after, ?_⟩
  · intro o ms
    exact ⟨(Session.sound_after o ms).ownsOutbox, Session.signalsLive_after o ms⟩
  · intro α κ ω recipe n ms
    have hstocked := Depot.isStocked_after recipe n ms
    exact ⟨Depot.mirrors_after recipe n ms, hstocked, fun _ => hstocked.full⟩

end Dialogue
