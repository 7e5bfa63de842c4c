import WgTcp.Foundation.Outbox
import WgTcp.Peer.Moves

/-!
# The wire-prefix law

The send queue of a peer and the frame in the writer's hand form an outbox
whose carriers are the peer's sockets. Every step of the peer is a move of
that outbox or none at all, as long as a promotion that is rolled back does
not release its socket under a writer that is still in its loop on it. So the
bytes on a socket are a prefix of the frames accepted for it.
-/

namespace WgTcp

/-! ## The outbox of a peer -/

/-- The frame, or the rest of it, that the worker has dequeued. -/
def WritePc.hand : WritePc → Bytes
  | .send _ frame => frame
  | .requeue _ rest => rest
  | _ => []

/-- The worker is in its loop on this socket. -/
def WritePc.loops (s : SockId) : WritePc → Bool
  | .dequeue t | .send t _ | .requeue t _ => t == s
  | _ => false

/-- A stop has emptied the queue of a socket that is still the peer's. -/
def Holder.purged : Holder → Bool
  | .reset _ (.stopOutbound _) | .reset _ (.stopInbound _)
  | .release _ (.stopOutbound _) | .release _ (.stopInbound _) => true
  | _ => false

/-- The sending side of a socket is the same. -/
structure Sock.SameWire (sk sk' : Sock) : Prop where
  wire : sk'.wire = sk.wire
  accepted : sk'.accepted = sk.accepted
  sendFailed : sk'.sendFailed = sk.sendFailed
  stage : sk.stage = .owned → sk'.stage = .owned

theorem Sock.SameWire.refl (sk : Sock) : sk.SameWire sk := ⟨rfl, rfl, rfl, id⟩

theorem Sock.SameWire.update {socks : SockId → Sock} {s : SockId} {sk : Sock}
    (h : (socks s).SameWire sk) (t : SockId) :
    (socks t).SameWire (Function.update socks s sk t) := by
  by_cases ht : t = s
  · subst ht
    simpa using h
  · simpa [ht] using Sock.SameWire.refl (socks t)

namespace State

/-- The socket that the queue belongs to. -/
def carrier (σ : State) : Option SockId :=
  if σ.lock.any Holder.purged then none else σ.peer.links.peerSocket

def outbox (σ : State) : Outbox SockId UInt8 where
  active := σ.carrier
  hand := σ.writer.hand
  queue := if σ.carrier.isSome then σ.peer.sendQueue else []
  wire := fun s => (σ.socks s).wire
  accepted := fun s => (σ.socks s).accepted
  broken := fun s => (σ.socks s).sendFailed

/-- A promotion that fails to install its callbacks releases the socket it has published; the
writer must not be in its loop on that socket. -/
def RollbackClear (σ : State) (a : Action) : Prop :=
  (match a, σ.lock with
    | .locked _, some (.release s .rollback) => σ.writer.loops s
    | _, _ => false) = false

instance (σ : State) (a : Action) : Decidable (σ.RollbackClear a) :=
  inferInstanceAs (Decidable (_ = _))

/-! ## The invariant -/

structure Carried (σ : State) : Prop where
  lawful : σ.outbox.Lawful
  writer : ∀ s, σ.writer.loops s = true → σ.carrier = some s
  /-- Without a carrier the queue is empty, about to be purged, or of no further use. -/
  loaded : σ.peer.links = .none → σ.peer.sendQueue = [] ∨
    (∃ s owner, σ.lock = some (.purge s owner)) ∨
    (σ.peer.tempPeer = true ∧ σ.peer.isDead = true)
  fresh : ∀ s, (σ.socks s).stage ≠ .owned → (σ.socks s).wire = [] ∧ (σ.socks s).accepted = []

theorem carried_init (tempPeer : Bool) (addressing : Addressing) :
    (State.init tempPeer addressing).Carried where
  lawful := ⟨fun c h => (by cases h), fun _ _ => List.prefix_rfl, fun _ => ⟨rfl, rfl⟩⟩
  writer := fun _ h => (by cases h)
  loaded := fun _ => .inl rfl
  fresh := fun _ _ => ⟨rfl, rfl⟩

variable {σ τ : State} {h k : Holder}

/-- What a step on one socket does to the outbox. -/
theorem outbox_setSock (σ : State) (s : SockId) (sk : Sock) :
    (σ.setSock s sk).outbox = { σ.outbox with
      wire := Function.update σ.outbox.wire s sk.wire
      accepted := Function.update σ.outbox.accepted s sk.accepted
      broken := Function.update σ.outbox.broken s sk.sendFailed } := by
  have field {γ : Type} (f : Sock → γ) : (fun t => f ((σ.setSock s sk).socks t)) =
      Function.update (fun t => f (σ.socks t)) s (f sk) :=
    Function.comp_update f σ.socks s sk
  exact Outbox.ext rfl rfl rfl (field Sock.wire) (field Sock.accepted) (field Sock.sendFailed)

theorem outbox_eq (hcarrier : τ.carrier = σ.carrier) (hhand : τ.writer.hand = σ.writer.hand)
    (hqueue : σ.carrier.isSome → τ.peer.sendQueue = σ.peer.sendQueue)
    (hsocks : ∀ s, (σ.socks s).SameWire (τ.socks s)) : τ.outbox = σ.outbox := by
  have hwire := funext fun s => (hsocks s).wire
  have haccepted := funext fun s => (hsocks s).accepted
  have hfailed := funext fun s => (hsocks s).sendFailed
  simp only [outbox, hcarrier, hhand, hwire, haccepted, hfailed, Outbox.mk.injEq, true_and,
    and_true]
  split
  · exact hqueue ‹_›
  · rfl

/-- A step that does not concern the outbox. -/
theorem Carried.same (hi : σ.Carried) (hcarrier : τ.carrier = σ.carrier)
    (hwriter : τ.writer = σ.writer) (hqueue : τ.peer.sendQueue = σ.peer.sendQueue)
    (hsocks : ∀ s, (σ.socks s).SameWire (τ.socks s))
    (hloaded : τ.peer.links = .none → σ.peer.links = .none ∧
      (σ.peer.tempPeer = true → σ.peer.isDead = true →
        τ.peer.tempPeer = true ∧ τ.peer.isDead = true) ∧
      ∀ s owner, σ.lock = some (.purge s owner) → τ.lock = some (.purge s owner)) : τ.Carried where
  lawful := by
    rw [outbox_eq hcarrier (by rw [hwriter]) (fun _ => hqueue) hsocks]
    exact hi.lawful
  writer := fun s hs => hcarrier.trans (hi.writer s (hwriter ▸ hs))
  loaded := by
    intro hnone
    obtain ⟨hlinks, hdead, hlock⟩ := hloaded hnone
    rcases hi.loaded hlinks with hq | ⟨s, owner, hl⟩ | ⟨ht, hd⟩
    · exact .inl (hqueue.trans hq)
    · exact .inr (.inl ⟨s, owner, hlock s owner hl⟩)
    · exact .inr (.inr (hdead ht hd))
  fresh := by
    intro s hs
    rw [(hsocks s).wire, (hsocks s).accepted]
    exact hi.fresh s fun ho => hs ((hsocks s).stage ho)

/-- The usual case: neither sockets nor lock nor queue are touched. -/
theorem Carried.keep (hi : σ.Carried) (hlinks : τ.peer.links = σ.peer.links)
    (htemp : τ.peer.tempPeer = σ.peer.tempPeer)
    (hdead : σ.peer.isDead = true → τ.peer.isDead = true)
    (hlock : τ.lock = σ.lock) (hwriter : τ.writer = σ.writer)
    (hqueue : τ.peer.sendQueue = σ.peer.sendQueue)
    (hsocks : ∀ s, (σ.socks s).SameWire (τ.socks s)) : τ.Carried :=
  hi.same (by simp only [carrier, hlock, hlinks]) hwriter hqueue hsocks fun hnone =>
    ⟨hlinks.symm.trans hnone, fun ht hd => ⟨htemp.trans ht, hdead hd⟩,
      fun _ _ hl => hlock.trans hl⟩

theorem Carried.outside (hi : σ.Carried) (hp : σ.peer.Outside σ.device τ.peer)
    (hlock : τ.lock = σ.lock) (hwriter : τ.writer = σ.writer)
    (hsocks : ∀ s, (σ.socks s).SameWire (τ.socks s)) : τ.Carried :=
  hi.keep hp.links hp.tempPeer hp.isDead hlock hwriter hp.sendQueue hsocks

theorem Carried.aside (hi : σ.Carried) (ha : σ.Aside τ) : τ.Carried :=
  hi.outside ha.peer.toOutside ha.lock ha.writer fun s => by rw [ha.socks]; exact .refl _

/-! ## Steps outside the lock -/

theorem kernelStep_carried {e : KernelEvent} (hi : σ.Carried) (h : σ.kernelStep e = some τ) :
    τ.Carried := by
  obtain ⟨sk, hsk, rfl⟩ := Option.map_eq_some_iff.mp h
  refine hi.outside (.refl _ _) rfl rfl (Sock.SameWire.update ?_)
  cases e <;> simp only [Sock.kernel] at hsk <;> split at hsk <;> cases hsk
  all_goals constructor <;> simp_all

theorem callbackStep_carried {s : SockId} (hi : σ.Carried) (h : σ.callbackStep s = some τ) :
    τ.Carried := by
  have hm := callbackStep_cases h
  have hp := hm.outside
  cases hm <;> exact hi.outside hp rfl rfl (Sock.SameWire.update ⟨rfl, rfl, rfl, id⟩)

theorem readStep_carried {A : SkbAllocator} {choice : ReadChoice} (hi : σ.Carried)
    (h : σ.readStep A choice = some τ) : τ.Carried := by
  cases readStep_cases h with
  | start => exact hi.keep rfl rfl id rfl rfl rfl fun s => .refl _
  | pass s n => exact hi.keep rfl rfl id rfl rfl rfl (Sock.SameWire.update ⟨rfl, rfl, rfl, id⟩)
  | finish captured budget =>
    exact hi.outside (Peer.finishReader_outside _ _ _ _ _) rfl rfl fun s => .refl _

/-- While the stream is open, no stop has purged the queue. -/
theorem carrier_of_streamOpen (hc : σ.Control) (h : σ.peer.streamOpen σ.device = true) :
    σ.carrier = σ.peer.links.peerSocket := by
  unfold carrier
  split
  · rename_i hp
    obtain ⟨k, hk, hp⟩ := (Option.any_eq_true _ _).mp hp
    have hok := (hc.holder k hk).1
    have hclosed : σ.peer.Closed := by
      cases k with
      | reset s owner => exact hok.2.2.2.closed
      | release s owner => exact (hok.2.2.2 (by rintro rfl; cases hp)).closed
      | _ => cases hp
    simp [hclosed.streamOpen] at h
  · rfl

theorem owned_of_carrier {s : SockId} (hc : σ.Custody) (h : σ.carrier = some s) :
    (σ.socks s).stage = .owned := by
  unfold carrier at h
  split at h
  · cases h
  · rcases hc.links with hl | ⟨t, inbound, hl, ht⟩
    · simp [hl, Links.none] at h
    · obtain rfl : t = s := by simpa [hl, Links.on] using h
      exact ht

theorem threadStep_carried {choice : Choice} {t : Thread} (hc : σ.Control) (hi : σ.Carried)
    (h : σ.threadStep choice t = some τ) : τ.Carried := by
  cases threadStep_cases hc h with
  | aside aside => exact hi.aside aside
  | dead temp => exact hi.keep rfl rfl (fun _ => rfl) rfl rfl rfl fun s => .refl _
  | acquire k entry free lock device peer socks reader writer =>
    refine hi.same ?_ writer (by rw [peer]) (fun s => by rw [socks]; exact .refl _) ?_
    · have hp : k.purged = false := by cases k <;> first | rfl | cases entry
      simp [carrier, lock, free, peer, hp]
    · intro hnone
      exact ⟨peer ▸ hnone, fun ht hd => ⟨peer ▸ ht, peer ▸ hd⟩, by simp [free]⟩
  | promotionClaim s connectionId stage =>
    exact hi.keep rfl rfl id rfl rfl rfl
      (Sock.SameWire.update ⟨rfl, rfl, rfl, by simp [stage]⟩)
  | stopBegin =>
    refine hi.keep ?_ ?_ ?_ rfl rfl ?_ fun s => .refl _
    all_goals dsimp only; split <;> first | rfl | exact id | exact fun _ => rfl
  | stopFinish => exact hi.keep rfl rfl id rfl rfl rfl fun s => .refl _

/-- A frame is accepted for the carrier that is active. -/
theorem requestStep_carried {queueLimit : Nat} {r : Request} (hc : σ.Control) (hi : σ.Carried)
    (h : σ.requestStep queueLimit r = some τ) : τ.Carried := by
  cases requestStep_cases h with
  | aside aside => exact hi.aside aside
  | accept frame s stream established active =>
    have hp := Peer.wgTcpScheduleWriteLocked_outside σ.device
      { σ.peer with sendQueue := σ.peer.sendQueue ++ [frame] }
    have hcarrier : σ.carrier = some s := (carrier_of_streamOpen hc stream).trans active
    have hlinks : σ.peer.links ≠ .none := fun hl => by simp [hl, Links.none] at active
    generalize Peer.wgTcpScheduleWriteLocked σ.device
      { σ.peer with sendQueue := σ.peer.sendQueue ++ [frame] } = p at hp
    have hcarrier' : (σ.setPeer p).carrier = some s := by
      simpa only [carrier, setPeer_lock, setPeer_peer, hp.links] using hcarrier
    refine ⟨?_, ?_, ?_, ?_⟩
    · have hmove := Outbox.Move.accept (o := σ.outbox) s frame hcarrier
      convert hmove.lawful hi.lawful using 1
      rw [outbox_setSock]
      simp [outbox, hcarrier, hcarrier', hp.sendQueue]
    · exact fun t ht => hcarrier'.trans (hcarrier.symm.trans (hi.writer t ht))
    · exact fun hnone => absurd (hp.links.symm.trans hnone) hlinks
    · intro t hstage
      by_cases ht : t = s
      · subst ht
        simp [owned_of_carrier hc.custody hcarrier] at hstage
      · simpa [ht] using hi.fresh t (by simpa [ht] using hstage)

/-! ## The writer -/

/-- A step of the writer that leaves the outbox as it is. -/
theorem Carried.idles (hi : σ.Carried) (hp : σ.peer.Outside σ.device τ.peer)
    (hlock : τ.lock = σ.lock) (hhand : τ.writer.hand = σ.writer.hand)
    (hwriter : ∀ s, τ.writer.loops s = true → σ.carrier = some s)
    (hsocks : ∀ s, (σ.socks s).SameWire (τ.socks s)) : τ.Carried where
  lawful := by
    have hcarrier : τ.carrier = σ.carrier := by simp only [carrier, hlock, hp.links]
    exact outbox_eq hcarrier hhand (fun _ => hp.sendQueue) hsocks ▸ hi.lawful
  writer := by
    intro s hs
    rw [← hwriter s hs]
    simp only [carrier, hlock, hp.links]
  loaded := by
    rw [hp.links, hp.sendQueue, hlock, hp.tempPeer]
    exact fun hnone => (hi.loaded hnone).imp_right (Or.imp_right (And.imp_right hp.isDead))
  fresh := by
    intro s hs
    rw [(hsocks s).wire, (hsocks s).accepted]
    exact hi.fresh s fun ho => hs ((hsocks s).stage ho)

/-- The writer takes a frame off the queue. -/
theorem writeDequeue_carried {s : SockId} (hi : σ.Carried) (hpc : σ.writer = .dequeue s) :
    (σ.writeDequeue s).Carried := by
  have hcarrier := hi.writer s (by simp [hpc, WritePc.loops])
  have hhand : σ.writer.hand = [] := by rw [hpc]; rfl
  unfold writeDequeue
  split
  · exact hi.idles (.refl _ _) rfl hhand.symm (fun t ht => by cases ht) fun t => .refl _
  · rename_i frame rest hq
    have hqueue : σ.outbox.queue = frame :: rest := by simp [outbox, hcarrier, hq]
    refine ⟨?_, ?_, ?_, hi.fresh⟩
    · convert (Outbox.Move.dequeue frame rest hhand hqueue).lawful hi.lawful using 1
      refine Outbox.ext rfl rfl ?_ rfl rfl rfl
      exact if_pos (congrArg Option.isSome hcarrier)
    · intro t ht
      exact hi.writer t (by simpa [hpc, WritePc.loops] using ht)
    · intro hnone
      change σ.peer.links = .none at hnone
      simp [carrier, hnone, Links.none] at hcarrier

theorem writeSend_outbox (σ : State) (s : SockId) (frame : Bytes) (choice : SendChoice)
    (pc : WritePc) : (σ.writeSend s frame choice pc).outbox = { σ.outbox with
      hand := pc.hand
      wire := Function.update σ.outbox.wire s ((σ.socks s).wire ++ choice.result.taken frame)
      broken := Function.update σ.outbox.broken s
        ((σ.socks s).sendFailed || choice.result == .failed) } := by
  have hsend : (σ.writeSend s frame choice pc).outbox =
      { (σ.setSock s (sendSock (σ.socks s) choice frame)).outbox with hand := pc.hand } := rfl
  rw [hsend, outbox_setSock]
  exact Outbox.ext rfl rfl rfl rfl (Function.update_eq_self s σ.outbox.accepted) rfl

/-- What a send does to the outbox: a write of some bytes, a failure, or nothing. -/
theorem writeSend_lawful {s : SockId} {frame : Bytes} {choice : SendChoice} {pc : WritePc}
    (hi : σ.Carried) (hpc : σ.writer = .send s frame)
    (next : choice.result.next s frame = some pc) :
    (σ.writeSend s frame choice pc).outbox.Lawful := by
  have hcarrier := hi.writer s (by simp [hpc, WritePc.loops])
  have hhand : σ.outbox.hand = frame := by simp [outbox, hpc, WritePc.hand]
  have hwire : σ.outbox.wire s = (σ.socks s).wire := rfl
  have hbroken : σ.outbox.broken s = (σ.socks s).sendFailed := rfl
  rw [writeSend_outbox, ← hwire, ← hbroken]
  cases hr : choice.result with
  | sent n =>
    have hmove := Outbox.Move.write (o := σ.outbox) s n hcarrier
    rw [hr] at next
    obtain ⟨-, hn⟩ := Option.ite_none_right_eq_some.mp next
    obtain rfl := Option.some.inj hn
    convert hmove.lawful hi.lawful using 2
    · by_cases hlen : frame.length ≤ n <;> simp [hhand, WritePc.hand, hlen]
    · rw [hhand]
      rfl
    · simp
  | eagain =>
    rw [hr] at next
    cases next
    convert hi.lawful using 1
    refine Outbox.ext rfl hhand.symm rfl ?_ rfl ?_
    · simp [SendResult.taken]
    · simp
  | failed =>
    have hmove := Outbox.Move.fail (o := σ.outbox) s hcarrier
    rw [hr] at next
    cases next
    convert hmove.lawful hi.lawful using 1
    refine Outbox.ext rfl rfl rfl ?_ rfl ?_
    · simp [SendResult.taken]
    · simp

theorem writeSend_carried {s : SockId} {frame : Bytes} {choice : SendChoice} {pc : WritePc}
    (hc : σ.Custody) (hi : σ.Carried) (hpc : σ.writer = .send s frame)
    (next : choice.result.next s frame = some pc) : (σ.writeSend s frame choice pc).Carried := by
  have hcarrier := hi.writer s (by simp [hpc, WritePc.loops])
  refine ⟨writeSend_lawful hi hpc next, ?_, hi.loaded, ?_⟩
  · intro t ht
    have hloops : pc.loops t = true → s = t := by
      cases hr : choice.result with
      | sent n =>
        rw [hr] at next
        obtain ⟨-, hn⟩ := Option.ite_none_right_eq_some.mp next
        obtain rfl := Option.some.inj hn
        split <;> simp [WritePc.loops]
      | eagain =>
        rw [hr] at next
        cases next
        simp [WritePc.loops]
      | failed =>
        rw [hr] at next
        cases next
        simp [WritePc.loops]
    exact hloops ht ▸ hcarrier
  · intro t hstage
    by_cases ht : t = s
    · subst ht
      simp [writeSend, sendSock, owned_of_carrier hc hcarrier] at hstage
    · have hsock : (σ.writeSend s frame choice pc).socks t = σ.socks t := by simp [writeSend, ht]
      rw [hsock] at hstage ⊢
      exact hi.fresh t hstage

theorem writeRequeue_carried {s : SockId} {rest : Bytes} (hi : σ.Carried)
    (hpc : σ.writer = .requeue s rest) : (σ.writeRequeue s rest).Carried := by
  have hcarrier := hi.writer s (by simp [hpc, WritePc.loops])
  refine ⟨?_, fun t ht => (by cases ht), ?_, hi.fresh⟩
  · have hmove := Outbox.Move.requeue (o := σ.outbox) s hcarrier
    convert hmove.lawful hi.lawful using 1
    refine Outbox.ext rfl rfl ?_ rfl rfl rfl
    have hqueue : (σ.writeRequeue s rest).outbox.queue = rest :: σ.peer.sendQueue :=
      if_pos (congrArg Option.isSome hcarrier)
    rw [hqueue]
    simp [outbox, hcarrier, hpc, WritePc.hand]
  · intro hnone
    change σ.peer.links = .none at hnone
    simp [carrier, hnone, Links.none] at hcarrier

theorem writeStep_carried {choice : SendChoice} (hc : σ.Control) (hi : σ.Carried)
    (h : σ.writeStep choice = some τ) : τ.Carried := by
  cases writeStep_cases h with
  | start idle work =>
    have hp : σ.peer.Outside σ.device σ.writeStart.peer :=
      { Peer.keeps_stream σ.device σ.peer σ.peer.read { σ.peer.write with work := false }
          σ.peer.sendQueue σ.peer.parser id (fun h => by cases h) with
        sendQueue := rfl, parser := rfl }
    cases hs : σ.peer.captureSocket σ.device with
    | none =>
      have hw : σ.writeStart.writer = .leave none := by simp [writeStart, hs]
      refine hi.idles hp rfl (by rw [hw, idle]; rfl) (fun t ht => ?_) fun t => .refl _
      rw [hw] at ht
      cases ht
    | some s =>
      have hw : σ.writeStart.writer = .dequeue s := by simp [writeStart, hs]
      refine hi.idles hp rfl (by rw [hw, idle]; rfl) (fun t ht => ?_) fun t => .refl _
      obtain rfl : s = t := by simpa [hw, WritePc.loops] using ht
      obtain ⟨hopen, -, hs⟩ := Peer.captureSocket_eq_some.mp hs
      exact (carrier_of_streamOpen hc hopen).trans hs
  | dequeue s hpc => exact writeDequeue_carried hi hpc
  | send s frame pc hpc callback next => exact writeSend_carried hc.custody hi hpc next
  | requeue s rest hpc => exact writeRequeue_carried hi hpc
  | arm s hpc =>
    exact hi.idles (.refl _ _) rfl (by rw [hpc]; rfl) (fun t ht => by cases ht)
      (Sock.SameWire.update ⟨rfl, rfl, rfl, id⟩)
  | fail s hpc =>
    exact hi.idles (Peer.wgTcpFailExactSocket_outside _ _ _) rfl (by rw [hpc]; rfl)
      (fun t ht => by cases ht) fun t => .refl _
  | finish captured hpc =>
    exact hi.idles (Peer.finishWriter_outside _ _ _ _) rfl (by rw [hpc]; rfl)
      (fun t ht => by cases ht) fun t => .refl _

/-! ## The holder of the lock -/

/-- A carrier is published while there is none. -/
theorem Carried.publish (hi : σ.Carried) {s : SockId} (hstage : (σ.socks s).stage ≠ .owned)
    (hlinks : σ.peer.links = .none) (hlock : ∀ t owner, σ.lock ≠ some (.purge t owner))
    (hlive : σ.peer.tempPeer = true → σ.peer.isDead = false)
    (hcarrier : τ.carrier = some s) (hlinks' : τ.peer.links ≠ .none)
    (hwriter : τ.writer = σ.writer) (hqueue : τ.peer.sendQueue = σ.peer.sendQueue)
    (hsocks : ∀ t, (σ.socks t).SameWire (τ.socks t)) : τ.Carried where
  lawful := by
    have hnone : σ.carrier = none := by simp [carrier, hlinks, Links.none]
    have hempty : σ.peer.sendQueue = [] := by
      rcases hi.loaded hlinks with hq | ⟨t, owner, hl⟩ | ⟨ht, hd⟩
      · exact hq
      · exact absurd hl (hlock t owner)
      · simp [hlive ht] at hd
    obtain ⟨hwire, haccepted⟩ := hi.fresh s hstage
    convert (Outbox.Move.publish s hnone hwire haccepted).lawful hi.lawful using 1
    refine Outbox.ext hcarrier (congrArg WritePc.hand hwriter) ?_ (funext fun t => (hsocks t).wire)
      (funext fun t => (hsocks t).accepted) (funext fun t => (hsocks t).sendFailed)
    simp [outbox, hqueue, hempty]
  writer := by
    intro t ht
    have := hi.writer t (hwriter ▸ ht)
    simp [carrier, hlinks, Links.none] at this
  loaded := fun hnone => absurd hnone hlinks'
  fresh := by
    intro t ht
    rw [(hsocks t).wire, (hsocks t).accepted]
    exact hi.fresh t fun ho => ht ((hsocks t).stage ho)

/-- The carrier is given up, and its queue with it. -/
theorem Carried.retire (hi : σ.Carried) (hidle : ∀ s, σ.writer.loops s = false)
    (hcarrier : τ.carrier = none) (hwriter : τ.writer = σ.writer)
    (hloaded : τ.peer.links = .none → τ.peer.sendQueue = [] ∨
      (∃ s owner, τ.lock = some (.purge s owner)) ∨
      (τ.peer.tempPeer = true ∧ τ.peer.isDead = true))
    (hsocks : ∀ t, (σ.socks t).SameWire (τ.socks t)) : τ.Carried where
  lawful := by
    have hhand : σ.writer.hand = [] := by
      cases hw : σ.writer with
      | send s frame => simpa [hw, WritePc.loops] using hidle s
      | requeue s rest => simpa [hw, WritePc.loops] using hidle s
      | _ => rfl
    convert (Outbox.Move.retire (o := σ.outbox) hhand).lawful hi.lawful using 1
    refine Outbox.ext hcarrier (congrArg WritePc.hand hwriter) ?_ (funext fun t => (hsocks t).wire)
      (funext fun t => (hsocks t).accepted) (funext fun t => (hsocks t).sendFailed)
    simp [outbox, hcarrier]
  writer := by
    intro t ht
    rw [hwriter, hidle t] at ht
    cases ht
  loaded := hloaded
  fresh := by
    intro t ht
    rw [(hsocks t).wire, (hsocks t).accepted]
    exact hi.fresh t fun ho => ht ((hsocks t).stage ho)

/-- The holder goes on, and the queue stays with its carrier. -/
theorem Carried.proceed (hi : σ.Carried) (hl : σ.lock = some h)
    (hpurge : ∀ s owner, h ≠ .purge s owner) (hpurged : τ.lock.any Holder.purged = h.purged)
    (hlinks : τ.peer.links = σ.peer.links) (htemp : τ.peer.tempPeer = σ.peer.tempPeer)
    (hdead : σ.peer.isDead = true → τ.peer.isDead = true) (hwriter : τ.writer = σ.writer)
    (hqueue : τ.peer.sendQueue = σ.peer.sendQueue)
    (hsocks : ∀ s, (σ.socks s).SameWire (τ.socks s)) : τ.Carried := by
  refine hi.same ?_ hwriter hqueue hsocks fun hnone =>
    ⟨hlinks.symm.trans hnone, fun ht hd => ⟨htemp.trans ht, hdead hd⟩, ?_⟩
  · simp [carrier, hl, hpurged, hlinks]
  · intro s owner hs
    exact absurd (Option.some.inj (hl.symm.trans hs)) (hpurge s owner)

theorem LockedMove.carried (hm : σ.LockedMove h τ) (hl : σ.lock = some h) (hc : σ.Control)
    (hi : σ.Carried)
    (hclear : ∀ s, h = .release s .rollback → σ.writer.loops s = false) : τ.Carried := by
  obtain ⟨hok, hin⟩ := hc.holder h hl
  have hidle (hq : σ.Quiet) (t : SockId) : σ.writer.loops t = false := by rw [hq.writer]; rfl
  have same (s : SockId) : (σ.socks s).SameWire (σ.socks s) := .refl _
  cases hm with
  | pass passes =>
    refine hi.proceed hl ?_ ?_ rfl rfl id rfl rfl same
    · rintro s owner rfl
      cases passes
    · cases passes <;> rfl
  | dial | unwindClaim | outboundClean | outboundStale | outboundFinish | inboundFinish
  | promoteCheck | promoteFree | promoteClaim | stopReclaim | cancelRead | cancelWrite =>
    exact hi.proceed hl (by simp) rfl rfl rfl id rfl rfl same
  | outboundUnlock | inboundUnlock | promoteUnlock | bootstrapUnlock | stopUnlock | installFail
  | handoverNothing | destroyed =>
    exact hi.proceed hl (by simp) rfl rfl rfl id rfl rfl same
  | create caller s unused =>
    exact hi.proceed hl (by simp) rfl rfl rfl id rfl rfl
      (Sock.SameWire.update ⟨rfl, rfl, rfl, by simp [unused]⟩)
  | connectPublish caller s live =>
    obtain ⟨hlinks, hstage⟩ := hok
    have hlive : σ.peer.isDead = false := by simp_all [Peer.live]
    exact hi.publish (by simp [hstage]) hlinks (by simp [hl]) (fun _ => hlive) rfl
      (by simp [Links.on, Links.none]) rfl rfl
      (Sock.SameWire.update ⟨rfl, rfl, rfl, fun _ => rfl⟩)
  | setup setsUp =>
    refine hi.proceed hl ?_ ?_ rfl rfl id rfl rfl (Sock.SameWire.update ⟨rfl, rfl, rfl, id⟩)
    · rintro t owner rfl
      cases setsUp
    · cases setsUp <;> rfl
  | start =>
    exact hi.proceed hl (by simp) rfl rfl rfl id rfl rfl
      (Sock.SameWire.update ⟨rfl, rfl, rfl, id⟩)
  | connectFinish caller s first p finish =>
    obtain ⟨-, -, conn, -, rfl⟩ := Peer.connectFinish_some hok.1 finish
    exact hi.proceed hl (by simp) rfl rfl rfl id rfl rfl same
  | unwindFinish caller =>
    split <;> exact hi.proceed hl (by simp) rfl rfl rfl id rfl rfl same
  | unwindQueue =>
    unfold Peer.unwindQueue
    split <;> exact hi.proceed hl (by simp) rfl rfl rfl id rfl rfl same
  | connectReturn =>
    refine hi.proceed hl (by simp) rfl ?_ ?_ ?_ ?_ ?_ ?_ <;> simp [same]
  | rearm rearms =>
    have hp := Peer.rearm_outside σ.device σ.peer σ.activeQueue
    refine hi.proceed hl ?_ ?_ hp.links hp.tempPeer hp.isDead rfl hp.sendQueue same
    · rintro t owner rfl
      cases rearms
    · cases rearms <;> rfl
  | promotePublish s =>
    obtain ⟨hlinks, hstage⟩ := hok
    have htemp : σ.peer.tempPeer ≠ true := fun ht => by
      simp [Inside, Holder.thread, (hc.provisional ht).1] at hin
    exact hi.publish (by simp [hstage]) hlinks (by simp [hl]) (fun ht => absurd ht htemp) rfl
      (by simp [Peer.promotePublish, Links.none]) rfl rfl
      (Sock.SameWire.update ⟨rfl, rfl, rfl, fun _ => rfl⟩)
  | bootstrapTake k next =>
    refine hi.proceed hl (by simp) ?_ rfl rfl id rfl rfl same
    rcases next with rfl | ⟨s, rfl⟩ <;> rfl
  | stopPurgeNone links =>
    exact hi.retire (hidle hok.2) (by simp [carrier, Peer.purgeSendQueue, links, Links.none]) rfl
      (fun _ => .inl rfl) same
  | stopPurge s inbound links =>
    exact hi.retire (hidle hok.2) (by cases inbound <;> rfl) rfl (fun _ => .inl rfl) same
  | installData s =>
    have hp := Peer.wgTcpDataReady_outside σ.device σ.peer
    exact hi.proceed hl (by simp) rfl hp.links hp.tempPeer hp.isDead rfl hp.sendQueue same
  | installFinish =>
    unfold Peer.finishInit
    split
    · exact hi.proceed hl (by simp) rfl rfl rfl (fun _ => rfl) rfl rfl same
    · exact hi.proceed hl (by simp) rfl rfl rfl id rfl rfl same
  | handoverClaim => exact hi.proceed hl (by simp) rfl rfl rfl (fun _ => rfl) rfl rfl same
  | handoverReset =>
    exact hi.proceed hl (by simp) rfl rfl rfl id rfl rfl
      (Sock.SameWire.update ⟨rfl, rfl, rfl, id⟩)
  | handoverDetach =>
    obtain ⟨-, -, hdead, hquiet⟩ := hok
    exact hi.retire (hidle hquiet) rfl rfl (fun _ => .inr (.inr ⟨hin, hdead⟩)) same
  | clearFlags plan =>
    have hkeep : (plan.clear σ.peer).links = σ.peer.links := by cases plan <;> rfl
    by_cases hpurged : plan.next.purged = true
    · refine hi.retire (hidle hok.2) (by simp [carrier, hpurged]) rfl (fun hnone => ?_) same
      have hlinks : σ.peer.links = .none := hkeep.symm.trans hnone
      cases plan with
      | detach s owner =>
        have := hok.1.1.symm.trans hlinks
        cases owner <;> cases this
      | promote new i o => cases i <;> cases o <;> cases hpurged
      | destroy s => cases s <;> cases hpurged
      | stop o i => cases hpurged
      | handover s => cases hpurged
    · refine hi.proceed hl (by simp) (Bool.eq_false_iff.mpr hpurged) hkeep ?_ ?_ rfl ?_ same
      all_goals cases plan <;> first | rfl | exact id
  | reset s owner =>
    exact hi.proceed hl (by simp) (by cases owner <;> rfl) rfl rfl id rfl rfl
      (Sock.SameWire.update ⟨rfl, rfl, rfl, id⟩)
  | release s owner =>
    obtain ⟨hlinks, -, -, hquiet⟩ := hok
    refine hi.retire ?_ rfl rfl (fun _ => .inr (.inl ⟨s, owner, rfl⟩)) same
    intro t
    by_cases ho : owner = .rollback
    · subst ho
      by_contra hloops
      have ht := hi.writer t (by simpa using hloops)
      obtain rfl : s = t := by simpa [carrier, hl, Holder.purged, hlinks, Links.on] using ht
      exact hloops (hclear s rfl)
    · exact hidle (hquiet ho) t
  | purge s owner =>
    refine hi.retire ?_ (by simp [carrier, Peer.purgeSendQueue, hok.1, Links.none]) rfl
      (fun _ => .inl rfl) same
    intro t
    by_contra hloops
    have ht := hi.writer t (by simpa using hloops)
    simp [carrier, hok.1, Links.none] at ht
  | shutdown s owner =>
    refine hi.same ?_ rfl rfl (Sock.SameWire.update ⟨rfl, rfl, rfl, id⟩) fun hnone =>
      ⟨hok.1, fun ht hd => ⟨ht, hd⟩, by simp [hl]⟩
    simp [carrier, hok.1, Links.none]

/-! ## Every step -/

theorem lifecycleStep_carried {l : Lifecycle} (hc : σ.Control) (hi : σ.Carried)
    (h : σ.lifecycleStep l = some τ) : τ.Carried := by
  cases lifecycleStep_cases hc h with
  | deviceDown => exact hi.keep rfl rfl id rfl rfl rfl fun s => .refl _
  | deviceUp done temp links =>
    unfold Peer.wgOpen
    split <;> exact hi.keep rfl rfl id rfl rfl rfl fun s => .refl _
  | removePeer => exact hi.keep rfl rfl (fun _ => rfl) rfl rfl rfl fun s => .refl _
  | install s connectionId stage temp free links live =>
    exact hi.publish (by simp [stage]) links (by simp [free]) (fun _ => live) rfl
      (by simp [Peer.install, Links.none]) rfl rfl
      (Sock.SameWire.update ⟨rfl, rfl, rfl, fun _ => rfl⟩)
  | handover s free =>
    refine hi.same ?_ rfl rfl (fun s => .refl _) fun hnone => ⟨hnone, fun ht hd => ⟨ht, hd⟩, ?_⟩
    · simp [carrier, free, Holder.purged]
    · simp [free]

theorem step_carried {A : SkbAllocator} {queueLimit : Nat} {a : Action} (hc : σ.Control)
    (hi : σ.Carried) (hclear : σ.RollbackClear a) (h : σ.step A queueLimit a = some τ) :
    τ.Carried := by
  cases a with
  | kernel e => exact kernelStep_carried hi h
  | callback s => exact callbackStep_carried hi h
  | read choice => exact readStep_carried hi h
  | write choice => exact writeStep_carried hc hi h
  | request r => exact requestStep_carried hc hi h
  | thread t choice => exact threadStep_carried hc hi h
  | locked choice =>
    obtain ⟨k, hk, h⟩ := Option.bind_eq_some_iff.mp h
    refine (lockedStep_cases hc hk h).carried hk hc hi ?_
    rintro s rfl
    simpa [RollbackClear, hk] using hclear
  | lifecycle l => exact lifecycleStep_carried hc hi h

theorem Reaches.carried {A : SkbAllocator} {queueLimit : Nat} {tempPeer : Bool}
    {addressing : Addressing} {as : List Action} (h : Reaches A queueLimit tempPeer addressing as σ)
    (hclear : Transition.Meets (step A queueLimit) RollbackClear (.init tempPeer addressing) as) :
    σ.Carried :=
  (Transition.run_invariant_of_meets (I := fun σ => σ.Control ∧ σ.Carried)
    (fun _ _ _ hi hclear h => ⟨step_control hi.1 h, step_carried hi.1 hi.2 hclear h⟩)
    ⟨control_init tempPeer addressing, carried_init tempPeer addressing⟩ hclear h).2

/-! ## Results -/

/-- The wire-prefix law: what has been written to a socket on which no send failed is a prefix of
the frames accepted for it, and a frame that meets a full queue is the only one dropped. -/
theorem wire_follows_accepted {A : SkbAllocator} {queueLimit : Nat} {tempPeer : Bool}
    {addressing : Addressing} {as : List Action} (h : Reaches A queueLimit tempPeer addressing as σ)
    (hclear : Transition.Meets (step A queueLimit) RollbackClear (.init tempPeer addressing) as) :
    (∀ s, (σ.socks s).sendFailed = false →
      (σ.socks s).wire <+: (σ.socks s).accepted.flatten) ∧
    (∀ frame, queueLimit ≤ σ.peer.sendQueue.length →
      σ.step A queueLimit (.request (.enqueue frame)) = some σ) := by
  refine ⟨(h.carried hclear).lawful.wire, ?_⟩
  intro frame hfull
  change some (σ.enqueueStep queueLimit frame) = some σ
  unfold enqueueStep
  split
  · rename_i p s hp hs
    have := (Peer.wgTcpEnqueueFrame_ok hp).2.2.2.1
    omega
  · rfl

/-- A write step with this result that leaves the socket writeable. -/
def writes (r : SendResult) : Action := .write ⟨r, true, false⟩

/-- A promotion publishes the first socket and a frame is accepted for it. -/
def promotedRun : List Action :=
  [.kernel (.accept 0 1), .request (.authenticated 1), .thread .promotion ⟨true, 0⟩,
    .thread .promotion ⟨true, 0⟩, .thread .promotion ⟨true, 0⟩, .thread .promotion ⟨true, 0⟩,
    .locked ⟨true, 0⟩, .locked ⟨true, 0⟩, .locked ⟨true, 0⟩, .locked ⟨true, 0⟩,
    .request (.enqueue [1, 2, 3])]

theorem wire_follows_accepted_promoted : ∃ σ,
    Reaches exactAllocator 4 false .unset
      (promotedRun ++ [writes .eagain, writes .eagain, writes (.sent 1)]) σ ∧
    (σ.socks 0).wire = [1] ∧ (σ.socks 0).wire <+: (σ.socks 0).accepted.flatten := by
  have hrun : ((Transition.run (step exactAllocator 4) (.init false .unset)
      (promotedRun ++ [writes .eagain, writes .eagain, writes (.sent 1)])).any fun σ =>
        decide ((σ.socks 0).wire = [1] ∧ (σ.socks 0).sendFailed = false)) = true := by
    decide +kernel
  obtain ⟨σ, hσ, hcheck⟩ := Transition.exists_run_of_any hrun
  obtain ⟨hwire, hsend⟩ := of_decide_eq_true hcheck
  exact ⟨σ, hσ, hwire, (wire_follows_accepted hσ (by decide +kernel)).1 0 hsend⟩

/-- After one byte of the frame the promotion is rolled back, and a second socket is promoted. -/
def rolledBackRun : List Action :=
  promotedRun ++ [writes .eagain, writes .eagain, writes (.sent 1), .locked ⟨false, 0⟩] ++
    List.replicate 5 (.locked ⟨true, 0⟩) ++ List.replicate 3 (writes .eagain) ++
    [.thread .promotion ⟨true, 0⟩, .kernel (.accept 1 2), .request (.authenticated 2),
      .thread .promotion ⟨true, 0⟩, .thread .promotion ⟨true, 0⟩, .thread .promotion ⟨true, 1⟩,
      .thread .promotion ⟨true, 0⟩] ++
    List.replicate 6 (.locked ⟨true, 0⟩) ++ [writes .eagain, writes .eagain, writes (.sent 2)]

/-- The rest of a frame that a rolled back promotion leaves to its writer goes out on the next
carrier. -/
theorem wire_follows_accepted_fails : ∃ σ,
    Reaches exactAllocator 4 false .unset rolledBackRun σ ∧
    (σ.socks 1).sendFailed = false ∧ (σ.socks 1).wire = [2, 3] ∧ (σ.socks 1).accepted = [] := by
  have hrun : ((Transition.run (step exactAllocator 4) (.init false .unset)
      rolledBackRun).any fun σ =>
      decide ((σ.socks 1).sendFailed = false ∧ (σ.socks 1).wire = [2, 3] ∧
        (σ.socks 1).accepted = [])) = true := by
    decide +kernel
  obtain ⟨σ, hσ, hcheck⟩ := Transition.exists_run_of_any hrun
  exact ⟨σ, hσ, of_decide_eq_true hcheck⟩

end State

end WgTcp
