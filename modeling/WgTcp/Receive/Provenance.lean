import WgTcp.Receive.Dispatch

/-!
# Where a packet came from

On a TCP device an authenticated packet moves the dial target and asks for a
promotion if its control block says that it came over TCP. `wg_receive` writes
that field and the connection id for every record of a stream; `wg_udp_receive`
writes neither, so what is in the control block of a datagram is left from
before. As long as no datagram comes with the TCP protocol number already in
place, the fields tell the truth through both queues.
-/

namespace WgTcp

/-- A stream reader delivered the packet, and the connection id is the one of the provisional peer
it read for, or zero. -/
def Packet.Stamped (packet : Packet) : Prop :=
  ∃ provisional, packet.carrier = .tcp provisional ∧
    packet.cb.tcpConnectionId = provisional.getD 0

/-- What is taken to have come over TCP did. -/
def Packet.Honest (packet : Packet) : Prop :=
  packet.cb.outerIpproto = ipprotoTcp → packet.Stamped

theorem Packet.honest_of_wgReceive (message : Bytes) (source : Option Endpoint)
    (provisional : Option Nat) (prior : PacketCb) :
    Packet.Honest ⟨message, wgReceiveCb provisional prior, source, .tcp provisional⟩ :=
  fun _ => ⟨provisional, rfl, rfl⟩

/-- A datagram is honest exactly if the memory was. -/
theorem Packet.honest_wgUdpReceive_iff (message : Bytes) (source : Option Endpoint)
    (prior : PacketCb) :
    Packet.Honest ⟨message, wgUdpReceiveCb prior, source, .udp⟩ ↔
      prior.outerIpproto ≠ ipprotoTcp := by
  constructor
  · intro honest htcp
    obtain ⟨provisional, hcarrier, -⟩ := honest htcp
    cases hcarrier
  · exact fun hprior htcp => absurd htcp hprior

/-- The parts of a peer that only authenticated TCP traffic may move. -/
structure Peer.SameTarget (p q : Peer) : Prop where
  peerEndpoint : q.addressing.peerEndpoint = p.addressing.peerEndpoint
  tcpRoamingConnectionId : q.addressing.tcpRoamingConnectionId = p.addressing.tcpRoamingConnectionId
  tcpPromotionConnectionId : q.tcpPromotionConnectionId = p.tcpPromotionConnectionId
  promotion : q.promotion = p.promotion

theorem Peer.SameTarget.refl (p : Peer) : p.SameTarget p := ⟨rfl, rfl, rfl, rfl⟩

theorem Peer.SameTarget.observed (transport : Transport) (p : Peer) (ep : Endpoint) :
    p.SameTarget
      { p with addressing := wgSocketSetPeerEndpoint transport p.addressing ep } := by
  unfold wgSocketSetPeerEndpoint wgSocketSetPeerEndpointInternal Addressing.store
  refine ⟨?_, ?_, rfl, rfl⟩
  all_goals
    simp only [Bool.false_eq_true, if_false]
    repeat' split
    all_goals rfl

namespace RxState

variable {σ τ : RxState}

/-- No datagram arrives in a buffer whose control block already says TCP. -/
def datagramUnstamped : RxAction → Bool
  | .udpDatagram _ prior _ => prior.outerIpproto != ipprotoTcp
  | _ => true

def DatagramUnstamped (_ : RxState) (a : RxAction) : Prop := datagramUnstamped a = true

instance (σ : RxState) (a : RxAction) : Decidable (DatagramUnstamped σ a) :=
  inferInstanceAs (Decidable (_ = true))

/-- The packet whose processing an action completes. -/
def taken (σ : RxState) : RxAction → Option Packet
  | .handshakeWork _ => σ.handshakeQueue.head?
  | .rxPoll peer _ => (σ.nextRx peer).map (·.packet)
  | _ => none

/-- The packets that wait, and those that the endpoint-learning code took for TCP packets. -/
structure Traced (σ : RxState) : Prop where
  handshakes : ∀ packet ∈ σ.handshakeQueue, packet.Honest
  data : ∀ rx ∈ σ.rxQueue, rx.packet.Honest
  learned : ∀ l ∈ σ.learned, l.overTcp = true → l.packet.Stamped

namespace Traced

theorem init (device : Device) (peers : PeerId → Peer) : Traced (.init device peers) where
  handshakes _ hmem := absurd hmem List.not_mem_nil
  data _ hmem := absurd hmem List.not_mem_nil
  learned _ hmem := absurd hmem List.not_mem_nil

theorem wgPacketConsumeData (h : Traced σ) {packet : Packet} (honest : packet.Honest)
    (arrival : Arrival) : Traced (σ.wgPacketConsumeData packet arrival) := by
  have hqueued (state : PacketState) (peer : PeerId) :
      Traced { σ with rxQueue := σ.rxQueue ++ [⟨peer, state, packet⟩] } := by
    refine ⟨h.handshakes, ?_, h.learned⟩
    intro rx hmem
    rcases List.mem_append.mp hmem with hold | hnew
    · exact h.data rx hold
    · rw [List.mem_singleton.mp hnew]
      exact honest
  unfold RxState.wgPacketConsumeData
  split
  · exact h
  · split
    · exact h
    · split
      · exact hqueued _ _
      · exact hqueued _ _
      · exact h

theorem wgPacketReceive (h : Traced σ) {cb : PacketCb} {carrier : Carrier}
    (honest : ∀ message source, Packet.Honest ⟨message, cb, source, carrier⟩) (skb : IngressSkb)
    (arrival : Arrival) : Traced (σ.wgPacketReceive skb cb carrier arrival) := by
  unfold RxState.wgPacketReceive
  cases prepareSkbHeader skb with
  | none => exact h
  | some message =>
    have hqueued : Traced { σ with
        handshakeQueue := σ.handshakeQueue ++ [⟨message, cb, skb.source, carrier⟩] } := by
      refine ⟨?_, h.data, h.learned⟩
      intro packet hmem
      rcases List.mem_append.mp hmem with hold | hnew
      · exact h.handshakes packet hold
      · rw [List.mem_singleton.mp hnew]
        exact honest message skb.source
    dsimp only
    split
    · split
      · exact hqueued
      · exact h
    · split
      · exact hqueued
      · exact h
    · split
      · exact hqueued
      · exact h
    · exact h.wgPacketConsumeData (honest message skb.source) arrival
    · exact ⟨h.handshakes, h.data, h.learned⟩

/-- Learning leaves the queues alone and adds at most one entry to the log. -/
theorem of_learned (h : Traced σ) (entry : Learned) (hsame : SameQueues σ τ)
    (hentry : entry.overTcp = true → entry.packet.Stamped)
    (hlog : τ.learned = σ.learned ∨ τ.learned = entry :: σ.learned) : Traced τ := by
  refine ⟨?_, ?_, ?_⟩
  · rw [hsame.handshakeQueue]
    exact h.handshakes
  · rw [hsame.rxQueue]
    exact h.data
  · rcases hlog with hlog | hlog
    · rw [hlog]
      exact h.learned
    · rw [hlog]
      intro l hmem
      rcases List.mem_cons.mp hmem with rfl | hold
      · exact hentry
      · exact h.learned l hold

theorem learnAuthenticated (h : Traced σ) {packet : Packet} (hstamped : packet.Stamped)
    (peer : PeerId) : Traced (σ.learnAuthenticated packet peer) := by
  apply h.of_learned ⟨packet, peer, true⟩ (learnAuthenticated_sameQueues σ packet peer)
    (fun _ => hstamped)
  unfold RxState.learnAuthenticated
  split
  · exact .inl rfl
  · right
    dsimp only
    split <;> rfl

theorem learnObserved (h : Traced σ) (packet : Packet) (peer : PeerId) :
    Traced (σ.learnObserved packet peer) := by
  apply h.of_learned ⟨packet, peer, false⟩ (learnObserved_sameQueues σ packet peer)
    (fun hover => by cases hover)
  unfold RxState.learnObserved
  split
  · exact .inl rfl
  · exact .inr rfl

theorem learnFromHandshake (h : Traced σ) {packet : Packet} (honest : packet.Honest)
    (peer : PeerId) : Traced (σ.learnFromHandshake packet peer) := by
  unfold RxState.learnFromHandshake
  split
  · exact h.learnObserved packet peer
  · split
    · next htcp => exact h.learnAuthenticated (honest htcp) peer
    · exact h

theorem wgPacketConsumeDataDone (h : Traced σ) {packet : Packet} (honest : packet.Honest)
    (peer : PeerId) : Traced (σ.wgPacketConsumeDataDone packet peer) := by
  unfold RxState.wgPacketConsumeDataDone
  split
  · next htcp => exact h.learnAuthenticated (honest htcp.2) peer
  · exact h.learnObserved packet peer

theorem processHandshake (h : Traced σ) {packet : Packet} (honest : packet.Honest)
    (needsCookie : Bool) (choice : HandshakeChoice) :
    Traced (σ.processHandshake packet needsCookie choice) := by
  unfold RxState.processHandshake
  repeat' split
  all_goals first
    | exact h
    | exact h.learnFromHandshake honest _
    | exact ⟨h.handshakes, h.data, h.learned⟩

theorem wgReceiveHandshakePacket (h : Traced σ) {packet : Packet} (honest : packet.Honest)
    (choice : HandshakeChoice) : Traced (σ.wgReceiveHandshakePacket packet choice) := by
  unfold RxState.wgReceiveHandshakePacket
  have hload (lastUnderLoad : Nat) : Traced { σ with lastUnderLoad := lastUnderLoad } :=
    ⟨h.handshakes, h.data, h.learned⟩
  split
  · exact h.processHandshake honest false choice
  · split
    · exact h
    · dsimp only
      split
      · exact (hload _).processHandshake honest false choice
      · exact (hload _).processHandshake honest true choice
      · exact hload _

end Traced

theorem mem_of_nextRx {peer : PeerId} {rx : RxPacket} (h : σ.nextRx peer = some rx) :
    rx ∈ σ.rxQueue := by
  obtain ⟨hfind, -⟩ := Option.filter_eq_some_iff.mp h
  exact List.mem_of_find?_eq_some hfind

theorem step_traced (h : Traced σ) {a : RxAction} (hc : DatagramUnstamped σ a)
    (hstep : σ.step a = some τ) : Traced τ := by
  cases a with
  | tcpRecord record provisional prior arrival =>
    cases hstep
    apply h.wgPacketReceive
    exact fun message source => Packet.honest_of_wgReceive message source provisional prior
  | udpDatagram skb prior arrival =>
    cases hstep
    apply h.wgPacketReceive
    intro message source
    exact (Packet.honest_wgUdpReceive_iff message source prior).mpr (bne_iff_ne.mp hc)
  | handshakeWork choice =>
    simp only [step] at hstep
    split at hstep
    · cases hstep
    · next packet rest hqueue =>
      cases hstep
      have honest := h.handshakes packet (hqueue ▸ List.mem_cons_self)
      have hnext := h.wgReceiveHandshakePacket honest choice
      refine ⟨?_, hnext.data, hnext.learned⟩
      exact fun queued hmem => h.handshakes queued (hqueue ▸ List.mem_cons_of_mem packet hmem)
  | decrypt i ok =>
    simp only [step] at hstep
    split at hstep
    · next rx hget =>
      obtain ⟨-, ⟨⟩⟩ := Option.ite_none_right_eq_some.mp hstep
      refine ⟨h.handshakes, ?_, h.learned⟩
      intro queued hmem
      rcases List.mem_or_eq_of_mem_set hmem with hold | rfl
      · exact h.data queued hold
      · exact h.data rx (List.mem_of_getElem? hget)
    · cases hstep
  | rxPoll peer valid =>
    simp only [step] at hstep
    split at hstep
    · cases hstep
    · next rx hnext =>
      cases hstep
      have herased : Traced { σ with rxQueue := σ.rxQueue.eraseP (·.peer == peer) } :=
        ⟨h.handshakes, fun queued hmem => h.data queued (List.mem_of_mem_eraseP hmem), h.learned⟩
      split
      · exact herased.wgPacketConsumeDataDone (h.data rx (mem_of_nextRx hnext)) peer
      · exact herased
  | deviceUp => cases hstep; exact ⟨h.handshakes, h.data, h.learned⟩
  | deviceDown =>
    cases hstep
    exact ⟨fun packet hmem => absurd hmem List.not_mem_nil, h.data, h.learned⟩
  | setTransport transport =>
    obtain ⟨-, ⟨⟩⟩ := Option.ite_none_left_eq_some.mp hstep
    exact ⟨h.handshakes, h.data, h.learned⟩

/-! ## Datagrams on a TCP device -/

/-- No carrier is marked, and no peer moves its target or asks for a promotion. -/
structure Unmoved (σ τ : RxState) : Prop where
  marked : τ.marked = σ.marked
  peers : ∀ peer, (σ.peers peer).SameTarget (τ.peers peer)

theorem Unmoved.of_eq (hmarked : τ.marked = σ.marked) (hpeers : τ.peers = σ.peers) :
    Unmoved σ τ := by
  refine ⟨hmarked, fun peer => ?_⟩
  rw [hpeers]
  exact .refl _

theorem learnObserved_unmoved (σ : RxState) (packet : Packet) (peer : PeerId) :
    Unmoved σ (σ.learnObserved packet peer) := by
  unfold learnObserved
  split
  · exact .of_eq rfl rfl
  · refine ⟨rfl, fun other => ?_⟩
    by_cases hother : other = peer
    · subst hother
      simp only [setPeer, Function.update_self]
      exact Peer.SameTarget.observed _ _ _
    · simp only [setPeer, Function.update_of_ne hother]
      exact .refl _

theorem processHandshake_unmoved {packet : Packet} (htcp : σ.device.transport = .tcp)
    (hproto : packet.cb.outerIpproto ≠ ipprotoTcp) (needsCookie : Bool)
    (choice : HandshakeChoice) : Unmoved σ (σ.processHandshake packet needsCookie choice) := by
  have hlearn (peer : PeerId) : σ.learnFromHandshake packet peer = σ := by
    simp [learnFromHandshake, htcp, hproto]
  unfold processHandshake
  simp only [hlearn]
  repeat' split
  all_goals exact .of_eq rfl rfl

theorem step_unmoved {a : RxAction} {packet : Packet} (htcp : σ.device.transport = .tcp)
    (htaken : σ.taken a = some packet) (hproto : packet.cb.outerIpproto ≠ ipprotoTcp)
    (hstep : σ.step a = some τ) : Unmoved σ τ := by
  cases a with
  | handshakeWork choice =>
    simp only [step] at hstep
    split at hstep
    · cases hstep
    · next head rest hqueue =>
      cases hstep
      obtain rfl : head = packet := by simpa [taken, hqueue] using htaken
      have hmoves := processHandshake_unmoved htcp hproto false choice
      simp only [wgReceiveHandshakePacket, htcp, if_true]
      exact ⟨hmoves.marked, hmoves.peers⟩
  | rxPoll peer valid =>
    simp only [step] at hstep
    split at hstep
    · cases hstep
    · next rx hnext =>
      cases hstep
      obtain rfl : rx.packet = packet := by simpa [taken, hnext] using htaken
      split
      · simp only [wgPacketConsumeDataDone, hproto, and_false, if_false]
        have hmoves := learnObserved_unmoved
          { σ with rxQueue := σ.rxQueue.eraseP (·.peer == peer) } rx.packet peer
        exact ⟨hmoves.marked, hmoves.peers⟩
      · exact .of_eq rfl rfl
  | _ => simp [taken] at htaken

/-- The packets that actions complete are among those that wait. -/
theorem Traced.taken_honest (h : Traced σ) {a : RxAction} {packet : Packet}
    (htaken : σ.taken a = some packet) : packet.Honest := by
  cases a with
  | handshakeWork choice => exact h.handshakes packet (List.mem_of_mem_head? htaken)
  | rxPoll peer valid =>
    obtain ⟨rx, hnext, rfl⟩ := Option.map_eq_some_iff.mp htaken
    exact h.data rx (mem_of_nextRx hnext)
  | _ => simp [taken] at htaken

/-- In a run whose datagrams come in buffers that do not already say TCP, the endpoint-learning code
takes for a TCP packet only what a stream reader delivered, with the connection id of that reader's
provisional peer or zero, and on a TCP device a datagram moves no dial target, no roaming
generation, no promotion and no mark. Whether a datagram's buffer says TCP is all that matters. -/
theorem carrier_provenance (device : Device) (peers : PeerId → Peer) (as : List RxAction)
    (σ : RxState) (hrun : Transition.run step (.init device peers) as = some σ)
    (hmeets : Transition.Meets step DatagramUnstamped (.init device peers) as) :
    (∀ l ∈ σ.learned, l.overTcp = true → l.packet.Stamped) ∧
      (∀ a τ packet, σ.step a = some τ → σ.device.transport = .tcp →
        σ.taken a = some packet → packet.carrier = .udp → Unmoved σ τ) ∧
      ∀ message source prior, Packet.Honest ⟨message, wgUdpReceiveCb prior, source, .udp⟩ ↔
        prior.outerIpproto ≠ ipprotoTcp := by
  have htraced : Traced σ :=
    Transition.run_invariant_of_meets (fun _ _ _ hs hc hstep => step_traced hs hc hstep)
      (Traced.init device peers) hmeets hrun
  refine ⟨htraced.learned, ?_, Packet.honest_wgUdpReceive_iff⟩
  intro a τ packet hstep htcp htaken hudp
  apply step_unmoved htcp htaken _ hstep
  intro hproto
  obtain ⟨provisional, hcarrier, -⟩ := htraced.taken_honest htaken hproto
  rw [hudp] at hcarrier
  cases hcarrier

/-- A datagram of 148 bytes whose type is that of an initiation. -/
def initiationDatagram : IngressSkb :=
  ⟨[0, 1, 0, 2] ++ BigEndian.encode 2 156 ++ [0, 0] ++ 1 :: List.replicate 147 0, 0, true, true,
    some (.inet 9 9 1 0)⟩

/-- The datagram arrives in a buffer with the given control block, and is from peer 0. -/
def datagramRun (prior : PacketCb) : List RxAction :=
  [.udpDatagram initiationDatagram prior ⟨true, true, none, .ok⟩,
    .handshakeWork ⟨0, .invalidMac, some 0, none⟩]

def listeningPeer : Peer :=
  .create false ⟨.inet 5 5 0 0, .inet 5 5 0 0, .inet 5 5 0 0, true, 5, 0⟩

theorem carrier_provenance_datagram :
    ∃ σ, Transition.run step (.init ⟨.tcp, true, true⟩ fun _ => listeningPeer)
        (datagramRun ⟨7, 17⟩) = some σ ∧
      ∀ l ∈ σ.learned, l.overTcp = true → l.packet.Stamped := by
  obtain ⟨σ, hrun, -⟩ := Transition.exists_run_of_any
    (by decide +kernel : (Transition.run step (.init ⟨.tcp, true, true⟩ fun _ => listeningPeer)
      (datagramRun ⟨7, 17⟩)).any (fun _ => true) = true)
  exact ⟨σ, hrun, (carrier_provenance _ _ _ σ hrun (by decide +kernel)).1⟩

/-- With a TCP protocol number left in the buffer, the datagram marks the carrier whose id is left
there too, moves the dial target and asks for the promotion. -/
theorem carrier_provenance_stale :
    ∃ σ, Transition.run step (.init ⟨.tcp, true, true⟩ fun _ => listeningPeer)
        (datagramRun ⟨7, 6⟩) = some σ ∧
      σ.learned.any (fun l => l.overTcp && l.packet.carrier == .udp) = true ∧
      σ.marked = [7] ∧ (σ.peers 0).tcpPromotionConnectionId = 7 ∧
      (σ.peers 0).addressing.tcpRoamingConnectionId = 7 ∧
      (σ.peers 0).addressing.peerEndpoint = .inet 5 9 0 0 := by
  obtain ⟨σ, hrun, hcheck⟩ := Transition.exists_run_of_any
    (by decide +kernel : (Transition.run step (.init ⟨.tcp, true, true⟩ fun _ => listeningPeer)
      (datagramRun ⟨7, 6⟩)).any (fun σ =>
        σ.learned.any (fun l => l.overTcp && l.packet.carrier == .udp) &&
        σ.marked == [7] && (σ.peers 0).tcpPromotionConnectionId == 7 &&
        (σ.peers 0).addressing.tcpRoamingConnectionId == 7 &&
        (σ.peers 0).addressing.peerEndpoint == .inet 5 9 0 0) = true)
  simp only [Bool.and_eq_true, beq_iff_eq, and_assoc] at hcheck
  exact ⟨σ, hrun, hcheck⟩

end RxState

end WgTcp
