/-
What callbacks on the stop token do to a session.

When the stop signal fires, every callback on the stop token does what it was given to do, and it
may have been given anything.  Once the end of the session has been decided little of that is felt:
messages are dropped, and stops have come too late.  What is felt is a panic and what is done to the
connection.  So an act is meek if it is neither, and unlinked if at least it leaves the connection
alone; and since an act may put another callback on the token, the same is asked of all that this
one does.

A panic is felt by the code in the middle of which it is raised.  That is the future if the future
is being polled, and whoever called for the stop if it is not; so a callback that panics does no
harm to a session outside of a poll.
-/
import Dialogue.Proofs.Session.Settling

namespace Dialogue.Session

variable {s t : Session}

/-! ### What an act sets going -/

mutual

/-- The act is of a kind, and all that it puts on the stop token is. -/
def Act.isOnly (kind : Act → Bool) : Act → Bool
  | .listen _ acts => actsAreOnly kind acts
  | a => kind a

@[inherit_doc Act.isOnly]
def actsAreOnly (kind : Act → Bool) : List Act → Bool
  | [] => true
  | a :: acts => a.isOnly kind && actsAreOnly kind acts

end

@[inherit_doc Act.isOnly]
def Deed.isOnly (kind : Act → Bool) : Deed → Bool
  | act a => a.isOnly kind
  | engineStop | heard _ => true

theorem actsAreOnly_iff {kind : Act → Bool} {acts : List Act} :
    actsAreOnly kind acts = true ↔ ∀ a ∈ acts, a.isOnly kind = true := by
  induction acts with
  | nil => simp [actsAreOnly]
  | cons a acts ih => simp [actsAreOnly, ih]

/-- What a callback on the token does is what the act was given that put it there. -/
theorem deeds_are_only {kind : Act → Bool} {id : Int} {acts : List Act}
    (h : (Act.listen id acts).isOnly kind = true) :
    ∀ d ∈ (Listener.token id acts).deeds, d.isOnly kind = true := by
  rw [Act.isOnly, actsAreOnly_iff] at h
  intro d hd
  rcases List.mem_cons.mp hd with rfl | hact
  · rfl
  · obtain ⟨a, ha, rfl⟩ := List.mem_map.mp hact
    exact h a ha

/-! ### Acts that are not felt -/

/-- The act is done to the connection. -/
def Act.isLink : Act → Bool
  | link _ => true
  | _ => false

/-- The act does not act on the connection, and sets nothing going that does. -/
def Act.isUnlinked (a : Act) : Bool :=
  a.isOnly fun b => !b.isLink

@[inherit_doc Act.isUnlinked]
def Deed.isUnlinked (d : Deed) : Bool :=
  d.isOnly fun b => !b.isLink

/-- The act neither panics nor acts on the connection, and sets nothing going that does. -/
def Act.isMeek (a : Act) : Bool :=
  a.isOnly fun b => !b.isLink && b.raised?.isNone

@[inherit_doc Act.isMeek]
def Deed.isMeek (d : Deed) : Bool :=
  d.isOnly fun b => !b.isLink && b.raised?.isNone

mutual

theorem Act.isOnly_mono {kind others : Act → Bool}
    (himp : ∀ a, kind a = true → others a = true) :
    ∀ a : Act, a.isOnly kind = true → a.isOnly others = true
  | .listen id acts, h => by
    rw [Act.isOnly] at h ⊢
    exact actsAreOnly_mono himp acts h
  | .send _, h | .echo, h | .stop, h | .stopWith _, h | .note, h | .panic _, h | .closed _, h
  | .unlisten _, h | .tokenFired, h | .debug, h | .link _, h => himp _ h

theorem actsAreOnly_mono {kind others : Act → Bool}
    (himp : ∀ a, kind a = true → others a = true) :
    ∀ acts : List Act, actsAreOnly kind acts = true → actsAreOnly others acts = true
  | [], _ => rfl
  | a :: acts, h => by
    rw [actsAreOnly, Bool.and_eq_true] at h ⊢
    exact ⟨Act.isOnly_mono himp a h.1, actsAreOnly_mono himp acts h.2⟩

end

theorem Deed.isUnlinked_of_meek {d : Deed} (h : d.isMeek = true) : d.isUnlinked = true := by
  cases d with
  | act a =>
    refine Act.isOnly_mono ?_ a h
    intro b hb
    exact (Bool.and_eq_true_iff.mp hb).1
  | engineStop => rfl
  | heard id => rfl

/-! ### Where a callback does no harm -/

/-- A session bears what would be done now: the connection is left alone, and inside of the future
there is no panic. -/
structure Bears (s : Session) (deeds : List Deed) : Prop where
  unlinked : ∀ d ∈ deeds, d.isUnlinked = true
  meek : s.running = true → ∀ d ∈ deeds, d.isMeek = true

/-- What the callbacks on the stop token would do, one after the other. -/
def listed (s : Session) : List Deed :=
  (s.order (s.stopSignal.slots.map (·.2))).flatMap (·.deeds)

theorem doing_fireStop (s : Session) : s.fireStop.doing = s.listed ++ s.doing := rfl

end Dialogue.Session
