import Mathlib

/-!
# One outbox, many carriers

Messages are accepted into a queue and written, piece by piece, to whichever
carrier is active. The head of the queue may be the rest of a message whose
beginning is already on the wire, so the queue belongs to its carrier: it is
emptied before another carrier is published. Then what is on the wire of a
carrier is always a prefix of the messages accepted for it.
-/

@[ext] structure Outbox (ι β : Type*) where
  active : Option ι
  /-- What the writer has taken from the queue and not yet written. -/
  hand : List β
  queue : List (List β)
  wire : ι → List β
  /-- The messages accepted while this was the active carrier. -/
  accepted : ι → List (List β)
  /-- A write failed; how much of the message arrived is unknown. -/
  broken : ι → Bool

namespace Outbox

variable {ι β : Type*} [DecidableEq ι]

inductive Move (o : Outbox ι β) : Outbox ι β → Prop where
  | accept (c : ι) (message : List β) (active : o.active = some c) :
      Move o { o with
        queue := o.queue ++ [message]
        accepted := Function.update o.accepted c (o.accepted c ++ [message]) }
  | dequeue (message : List β) (rest : List (List β)) (hand : o.hand = [])
      (queue : o.queue = message :: rest) : Move o { o with hand := message, queue := rest }
  | write (c : ι) (n : Nat) (active : o.active = some c) :
      Move o { o with
        hand := o.hand.drop n
        wire := Function.update o.wire c (o.wire c ++ o.hand.take n) }
  | requeue (c : ι) (active : o.active = some c) :
      Move o { o with hand := [], queue := o.hand :: o.queue }
  | fail (c : ι) (active : o.active = some c) :
      Move o { o with hand := [], broken := Function.update o.broken c true }
  | retire (hand : o.hand = []) : Move o { o with active := none, queue := [] }
  | publish (c : ι) (active : o.active = none) (wire : o.wire c = [])
      (accepted : o.accepted c = []) : Move o { o with active := some c }

structure Lawful (o : Outbox ι β) : Prop where
  /-- Nothing of the active carrier's messages is lost or repeated. -/
  active : ∀ c, o.active = some c → o.broken c = false →
    o.wire c ++ o.hand ++ o.queue.flatten = (o.accepted c).flatten
  wire : ∀ c, o.broken c = false → o.wire c <+: (o.accepted c).flatten
  detached : o.active = none → o.hand = [] ∧ o.queue = []

variable {o o' : Outbox ι β}

/-- For the active carrier the law of the wire follows from the balance. -/
theorem Lawful.of_active {c : ι} (hc : o'.active = some c)
    (hbalance : o'.broken c = false →
      o'.wire c ++ o'.hand ++ o'.queue.flatten = (o'.accepted c).flatten)
    (hother : ∀ d, d ≠ c → o'.broken d = false → o'.wire d <+: (o'.accepted d).flatten) :
    o'.Lawful where
  active := by
    intro d hd hb
    obtain rfl : c = d := Option.some.inj (hc.symm.trans hd)
    exact hbalance hb
  wire := by
    intro d hb
    by_cases hd : d = c
    · subst hd
      exact ⟨_, (List.append_assoc _ _ _).symm.trans (hbalance hb)⟩
    · exact hother d hd hb
  detached := by simp [hc]

theorem Move.lawful (hm : o.Move o') (h : o.Lawful) : o'.Lawful := by
  cases hm with
  | accept c message active =>
    refine .of_active active ?_ ?_
    · intro hb
      simp [← h.active c active hb]
    · intro d hd hb
      simpa [hd] using h.wire d hb
  | dequeue message rest hand queue =>
    refine ⟨?_, h.wire, ?_⟩
    · intro c hc hb
      simpa [hand, queue] using h.active c hc hb
    · intro hnone
      exact absurd (h.detached hnone).2 (by simp [queue])
  | write c n active =>
    refine .of_active active ?_ ?_
    · intro hb
      simp [← h.active c active hb]
    · intro d hd hb
      simpa [hd] using h.wire d hb
  | requeue c active =>
    refine .of_active active ?_ fun d _ hb => h.wire d hb
    intro hb
    simpa using h.active c active hb
  | fail c active =>
    refine .of_active active (by simp) ?_
    intro d hd hb
    exact h.wire d (by simpa [hd] using hb)
  | retire hand => exact ⟨by simp, h.wire, fun _ => ⟨hand, rfl⟩⟩
  | publish c active wire accepted =>
    obtain ⟨hhand, hqueue⟩ := h.detached active
    refine .of_active rfl ?_ fun d _ hb => h.wire d hb
    simp [wire, accepted, hhand, hqueue]

end Outbox
