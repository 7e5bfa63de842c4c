import WgTcp.Foundation.Transition
import WgTcp.Peer.Sections

/-!
# Packet dispatch

What becomes of a packet that a carrier hands to the device: `prepare_skb_header`
checks its headers and its length, `wg_packet_receive` sorts it by type, the
handshake worker and the decryption workers take it from their queues, and an
authenticated packet tells the device where its peer is.

A packet is handed over by a TCP stream reader or by the companion UDP socket,
and its control block is whatever the memory held before. The outcome of the
cryptography is a choice of the environment.
-/

namespace WgTcp

abbrev PeerId := Nat

/-! ## Messages -/

inductive MessageType where
  | handshakeInitiation
  | handshakeResponse
  | handshakeCookie
  | data
deriving Repr, DecidableEq

def MessageType.ofLe32 : Nat → Option MessageType
  | 1 => some .handshakeInitiation
  | 2 => some .handshakeResponse
  | 3 => some .handshakeCookie
  | 4 => some .data
  | _ => none

/-- `SKB_TYPE_LE32`: the first four bytes, the least significant first. -/
def skbTypeLe32 (message : Bytes) : Option MessageType :=
  MessageType.ofLe32 (BigEndian.decode (message.take 4).reverse)

abbrev messageHeaderLen : Nat := 4
abbrev messageHandshakeInitiationLen : Nat := 148
abbrev messageHandshakeResponseLen : Nat := 92
abbrev messageHandshakeCookieLen : Nat := 64
abbrev messageDataLen : Nat := 16

/-- The length of the header, or zero. -/
def validateHeaderLen (message : Bytes) : Nat :=
  if message.length < messageHeaderLen then 0
  else if skbTypeLe32 message = some .data ∧ messageMinimumLength ≤ message.length then
    messageDataLen
  else if skbTypeLe32 message = some .handshakeInitiation ∧
      message.length = messageHandshakeInitiationLen then messageHandshakeInitiationLen
  else if skbTypeLe32 message = some .handshakeResponse ∧
      message.length = messageHandshakeResponseLen then messageHandshakeResponseLen
  else if skbTypeLe32 message = some .handshakeCookie ∧
      message.length = messageHandshakeCookieLen then messageHandshakeCookieLen
  else 0

/-- A buffer as a carrier hands it over. -/
structure IngressSkb where
  data : Bytes
  transportOffset : Nat
  /-- `wg_check_packet_protocol` accepts it, and its transport header is in the linear part. -/
  protocolOk : Bool
  /-- Moving bytes of a paged buffer to its linear part succeeds. -/
  pulls : Bool
  /-- What `wg_socket_endpoint_from_skb` reads off the headers. -/
  source : Option Endpoint
deriving Repr, DecidableEq

abbrev udpHdrLen : Nat := 8

/-- `prepare_skb_header`, with the message that is left on success. -/
def prepareSkbHeader (skb : IngressSkb) : Option Bytes :=
  if !skb.protocolOk || decide (skb.data.length < skb.transportOffset + udpHdrLen) then none
  else
    let dataOffset := skb.transportOffset + udpHdrLen
    if 65535 < dataOffset ∨ skb.data.length < dataOffset + udpHdrLen then none
    else
      let dataLen := BigEndian.decode ((skb.data.drop (skb.transportOffset + 4)).take 2)
      if dataLen < udpHdrLen ∨ skb.data.length - skb.transportOffset < dataLen then none
      else
        let dataLen := dataLen - udpHdrLen
        if !skb.pulls || decide (skb.data.length < dataOffset + messageHeaderLen) then none
        else
          let message := (skb.data.take (dataLen + dataOffset)).drop dataOffset
          if message.length ≠ dataLen then none
          else
            let headerLen := validateHeaderLen message
            if headerLen = 0 then none
            else if message.length < headerLen then none
            else some message

/-- A record of the stream, with what the reader puts in front of it: a network header of 20 or 40
bytes, and the ports and the checksum of a UDP header. -/
structure TcpRecord where
  message : Bytes
  network : Bytes
  ports : Bytes
  check : Bytes
  source : Endpoint
deriving Repr, DecidableEq

def wgTcpBuildFakeHeaders (record : TcpRecord) : IngressSkb where
  data := record.network ++
    (record.ports ++ BigEndian.encode 2 (udpHdrLen + record.message.length) ++ record.check) ++
    record.message
  transportOffset := record.network.length
  protocolOk := true
  pulls := true
  source := some record.source

theorem skbType_of_validateHeaderLen {message : Bytes} (h : validateHeaderLen message ≠ 0) :
    ∃ type, skbTypeLe32 message = some type := by
  unfold validateHeaderLen at h
  repeat' split at h
  · exact absurd rfl h
  · rename_i hdata
    exact ⟨_, hdata.1⟩
  · rename_i hinitiation
    exact ⟨_, hinitiation.1⟩
  · rename_i hresponse
    exact ⟨_, hresponse.1⟩
  · rename_i hcookie
    exact ⟨_, hcookie.1⟩
  · exact absurd rfl h

/-- What passes the header checks has a known type. -/
theorem prepareSkbHeader_type {skb : IngressSkb} {message : Bytes}
    (h : prepareSkbHeader skb = some message) : ∃ type, skbTypeLe32 message = some type := by
  unfold prepareSkbHeader at h
  obtain ⟨-, h⟩ := Option.ite_none_left_eq_some.mp h
  obtain ⟨-, h⟩ := Option.ite_none_left_eq_some.mp h
  obtain ⟨-, h⟩ := Option.ite_none_left_eq_some.mp h
  obtain ⟨-, h⟩ := Option.ite_none_left_eq_some.mp h
  obtain ⟨-, h⟩ := Option.ite_none_left_eq_some.mp h
  obtain ⟨hheader, h⟩ := Option.ite_none_left_eq_some.mp h
  obtain ⟨-, ⟨⟩⟩ := Option.ite_none_left_eq_some.mp h
  exact skbType_of_validateHeaderLen hheader

/-! ## Carriers and control blocks -/

/-- Who handed a packet over: a stream reader, for a provisional peer with its connection id, or the
UDP socket. -/
inductive Carrier where
  | tcp (provisional : Option Nat)
  | udp
deriving Repr, DecidableEq

/-- The provenance fields of `struct packet_cb`. -/
structure PacketCb where
  tcpConnectionId : Nat
  outerIpproto : UInt8
deriving Repr, DecidableEq

abbrev ipprotoTcp : UInt8 := 6

/-- The control block after `wg_receive` on a TCP socket, whose peer is provisional or not. -/
def wgReceiveCb (provisional : Option Nat) (prior : PacketCb) : PacketCb :=
  { prior with outerIpproto := ipprotoTcp, tcpConnectionId := provisional.getD 0 }

/-- The control block after `wg_udp_receive`. -/
def wgUdpReceiveCb (prior : PacketCb) : PacketCb := prior

structure Packet where
  message : Bytes
  cb : PacketCb
  source : Option Endpoint
  /-- Not known to the code. -/
  carrier : Carrier
deriving Repr, DecidableEq

/-! ## Cookies -/

inductive CookieMacState where
  | invalidMac
  | validMacButNoCookie
  | validMacWithCookieButRatelimited
  | validMacWithCookie
deriving Repr, DecidableEq

inductive CookieValidationAction where
  | drop
  | accept
  | challenge
deriving Repr, DecidableEq

def wgCookieValidationAction (underLoad : Bool) (macState : CookieMacState) :
    CookieValidationAction :=
  if underLoad && macState == .validMacWithCookie then .accept
  else if !underLoad && macState == .validMacButNoCookie then .accept
  else if underLoad && macState == .validMacButNoCookie then .challenge
  else .drop

/-! ## The device -/

inductive PacketState where
  | uncrypted
  | crypted
  | dead
deriving Repr, DecidableEq

/-- A data packet between its arrival and the end of its peer's `rx_queue`. -/
structure RxPacket where
  peer : PeerId
  state : PacketState
  packet : Packet
deriving Repr, DecidableEq

/-- A call of the endpoint-learning code. -/
structure Learned where
  packet : Packet
  peer : PeerId
  /-- The packet is taken to have come over TCP. -/
  overTcp : Bool
deriving Repr, DecidableEq

structure RxState where
  device : Device
  handshakeQueue : List Packet
  /-- The global of `wg_receive_handshake_packet`, in nanoseconds. -/
  lastUnderLoad : Nat
  rxQueue : List RxPacket
  peers : PeerId → Peer
  /-- The ids that `wg_tcp_mark_connection_authenticated` was called with. -/
  marked : List Nat
  /-- How often one of the two `WARN`s was hit. -/
  warnings : Nat
  /-- The calls of the endpoint-learning code so far. -/
  learned : List Learned

def RxState.init (device : Device) (peers : PeerId → Peer) : RxState :=
  ⟨device, [], 0, [], peers, [], 0, []⟩

abbrev maxQueuedIncomingHandshakes : Nat := 4096

inductive EnqueueResult where
  | ok
  | epipe
  | failed
deriving Repr, DecidableEq

/-- What an arriving packet meets. -/
structure Arrival where
  rngInitialized : Bool
  /-- `spin_trylock_bh` on the producer lock. -/
  trylock : Bool
  /-- The peer of the keypair that the key index of a data message leads to. -/
  keypair : Option PeerId
  enqueue : EnqueueResult
deriving Repr, DecidableEq

/-- What the handshake worker meets. -/
structure HandshakeChoice where
  now : Nat
  macState : CookieMacState
  /-- `wg_noise_handshake_consume_initiation`. -/
  initiation : Option PeerId
  /-- `wg_noise_handshake_consume_response`. -/
  response : Option PeerId
deriving Repr, DecidableEq

inductive RxAction where
  /-- A stream reader delivers a record. -/
  | tcpRecord (record : TcpRecord) (provisional : Option Nat) (prior : PacketCb) (arrival : Arrival)
  /-- The UDP socket delivers a datagram. The control block holds what the memory held. -/
  | udpDatagram (skb : IngressSkb) (prior : PacketCb) (arrival : Arrival)
  | handshakeWork (choice : HandshakeChoice)
  /-- A decryption worker is through with the `i`th data packet. -/
  | decrypt (i : Nat) (ok : Bool)
  /-- `wg_packet_rx_poll` takes the next packet of a peer; `counter_validate` accepts it or not. -/
  | rxPoll (peer : PeerId) (valid : Bool)
  | deviceUp
  | deviceDown
  | setTransport (transport : Transport)
deriving Repr, DecidableEq

namespace Peer

/-- `wg_socket_set_peer_endpoint_authenticated`, but for the list entry that it marks. -/
def wgSocketSetPeerEndpointAuthenticated (d : Device) (p : Peer) (ep : Endpoint)
    (connectionId : Nat) : Peer :=
  let p := { p with addressing := wgSocketSetPeerEndpoint d.transport p.addressing ep }
  if d.transport != .tcp then p
  else
    let p := if connectionId = 0 then p else p.requestPromotion connectionId
    let learned := learnDialTarget p.addressing ep connectionId
    let p := { p with addressing := learned.1 }
    if learned.2 && !p.tempPeer then p.wgTcpPeerRequestReconnectAfter d else p

end Peer

namespace RxState

variable (σ : RxState)

def setPeer (peer : PeerId) (p : Peer) : RxState :=
  { σ with peers := Function.update σ.peers peer p }

/-- `wg_packet_consume_data`. -/
def wgPacketConsumeData (packet : Packet) (arrival : Arrival) : RxState :=
  match arrival.keypair with
  | none => σ
  | some peer =>
      if (σ.peers peer).isDead then σ
      else
        match arrival.enqueue with
        | .ok => { σ with rxQueue := σ.rxQueue ++ [⟨peer, .uncrypted, packet⟩] }
        | .epipe => { σ with rxQueue := σ.rxQueue ++ [⟨peer, .dead, packet⟩] }
        | .failed => σ

/-- Whether the ring takes a handshake message. Above half its size, the producer only tries for
the lock. -/
def ringProduce (arrival : Arrival) : Bool :=
  (decide (σ.handshakeQueue.length ≤ maxQueuedIncomingHandshakes / 2) || arrival.trylock) &&
    decide (σ.handshakeQueue.length < maxQueuedIncomingHandshakes)

def wgPacketReceive (skb : IngressSkb) (cb : PacketCb) (carrier : Carrier) (arrival : Arrival) :
    RxState :=
  match prepareSkbHeader skb with
  | none => σ
  | some message =>
      let packet : Packet := ⟨message, cb, skb.source, carrier⟩
      match skbTypeLe32 message with
      | some .handshakeInitiation | some .handshakeResponse | some .handshakeCookie =>
          if arrival.rngInitialized && σ.ringProduce arrival then
            { σ with handshakeQueue := σ.handshakeQueue ++ [packet] }
          else σ
      | some .data => σ.wgPacketConsumeData packet arrival
      | none => { σ with warnings := σ.warnings + 1 }

/-- `wg_socket_set_peer_endpoint_authenticated`, and its variant that reads the tuple off the
packet. -/
def learnAuthenticated (packet : Packet) (peer : PeerId) : RxState :=
  match packet.source with
  | none => σ
  | some ep =>
      let σ := { σ with learned := ⟨packet, peer, true⟩ :: σ.learned }
      let σ :=
        if σ.device.transport = .tcp ∧ packet.cb.tcpConnectionId ≠ 0 then
          { σ with marked := packet.cb.tcpConnectionId :: σ.marked }
        else σ
      σ.setPeer peer ((σ.peers peer).wgSocketSetPeerEndpointAuthenticated σ.device ep
        packet.cb.tcpConnectionId)

/-- `wg_socket_set_peer_endpoint` and its variant that reads the tuple off the packet. -/
def learnObserved (packet : Packet) (peer : PeerId) : RxState :=
  match packet.source with
  | none => σ
  | some ep =>
      { σ with learned := ⟨packet, peer, false⟩ :: σ.learned }.setPeer peer
        { σ.peers peer with
          addressing := wgSocketSetPeerEndpoint σ.device.transport (σ.peers peer).addressing ep }

/-- The endpoint of a peer after a handshake message of it. -/
def learnFromHandshake (packet : Packet) (peer : PeerId) : RxState :=
  if σ.device.transport = .udp then σ.learnObserved packet peer
  else if packet.cb.outerIpproto = ipprotoTcp then σ.learnAuthenticated packet peer
  else σ

/-- The load calculation, with the new value of `last_under_load`. -/
def load (now : Nat) : Bool × Nat :=
  if maxQueuedIncomingHandshakes / 8 ≤ σ.handshakeQueue.length then (true, now)
  else if σ.lastUnderLoad = 0 then (false, 0)
  else if σ.lastUnderLoad + 1000000000 ≤ now then (false, 0)
  else (true, σ.lastUnderLoad)

/-- From the label `nocookie` on. -/
def processHandshake (packet : Packet) (needsCookie : Bool) (choice : HandshakeChoice) : RxState :=
  match skbTypeLe32 packet.message with
  | some .handshakeInitiation =>
      if needsCookie then σ
      else
        match choice.initiation with
        | none => σ
        | some peer => σ.learnFromHandshake packet peer
  | some .handshakeResponse =>
      if needsCookie then σ
      else
        match choice.response with
        | none => σ
        | some peer => σ.learnFromHandshake packet peer
  -- Anything else falls out of the switch without a peer.
  | _ => { σ with warnings := σ.warnings + 1 }

def wgReceiveHandshakePacket (packet : Packet) (choice : HandshakeChoice) : RxState :=
  if σ.device.transport = .tcp then σ.processHandshake packet false choice
  else if skbTypeLe32 packet.message = some .handshakeCookie then σ
  else
    let load := σ.load choice.now
    let σ := { σ with lastUnderLoad := load.2 }
    match wgCookieValidationAction load.1 choice.macState with
    | .accept => σ.processHandshake packet false choice
    | .challenge => σ.processHandshake packet true choice
    | .drop => σ

/-- `wg_packet_consume_data_done`, as far as it concerns the endpoint. -/
def wgPacketConsumeDataDone (packet : Packet) (peer : PeerId) : RxState :=
  if σ.device.transport = .tcp ∧ packet.cb.outerIpproto = ipprotoTcp then
    σ.learnAuthenticated packet peer
  else σ.learnObserved packet peer

/-- The first packet of a peer's `rx_queue`, if a decryption worker is through with it. -/
def nextRx (peer : PeerId) : Option RxPacket :=
  (σ.rxQueue.find? (·.peer == peer)).filter fun rx => rx.state != .uncrypted

def step : RxAction → Option RxState
  | .tcpRecord record provisional prior arrival =>
      some (σ.wgPacketReceive (wgTcpBuildFakeHeaders record) (wgReceiveCb provisional prior)
        (.tcp provisional) arrival)
  | .udpDatagram skb prior arrival =>
      some (σ.wgPacketReceive skb (wgUdpReceiveCb prior) .udp arrival)
  | .handshakeWork choice =>
      match σ.handshakeQueue with
      | [] => none
      | packet :: rest =>
          some { σ.wgReceiveHandshakePacket packet choice with handshakeQueue := rest }
  | .decrypt i ok =>
      match σ.rxQueue[i]? with
      | some rx =>
          if rx.state = .uncrypted then
            some { σ with
              rxQueue := σ.rxQueue.set i { rx with state := if ok then .crypted else .dead } }
          else none
      | none => none
  | .rxPoll peer valid =>
      match σ.nextRx peer with
      | none => none
      | some rx =>
          let σ := { σ with rxQueue := σ.rxQueue.eraseP (·.peer == peer) }
          some (if rx.state = .crypted ∧ valid then σ.wgPacketConsumeDataDone rx.packet peer else σ)
  | .deviceUp =>
      some { σ with device := { σ.device with tcpCleanupScheduled := true, netifRunning := true } }
  | .deviceDown =>
      some { σ with
        device := { σ.device with tcpCleanupScheduled := false, netifRunning := false }
        handshakeQueue := [] }
  | .setTransport transport =>
      if σ.device.netifRunning then none
      else some { σ with device := { σ.device with transport := transport } }

/-! ## The two warnings -/

variable {σ}

@[simp] theorem setPeer_warnings (peer : PeerId) (p : Peer) :
    (σ.setPeer peer p).warnings = σ.warnings := rfl

@[simp] theorem setPeer_handshakeQueue (peer : PeerId) (p : Peer) :
    (σ.setPeer peer p).handshakeQueue = σ.handshakeQueue := rfl

/-- The fields that learning an endpoint leaves alone. -/
structure SameQueues (σ τ : RxState) : Prop where
  device : τ.device = σ.device
  handshakeQueue : τ.handshakeQueue = σ.handshakeQueue
  lastUnderLoad : τ.lastUnderLoad = σ.lastUnderLoad
  rxQueue : τ.rxQueue = σ.rxQueue
  warnings : τ.warnings = σ.warnings

theorem SameQueues.refl (σ : RxState) : SameQueues σ σ := ⟨rfl, rfl, rfl, rfl, rfl⟩

theorem learnAuthenticated_sameQueues (σ : RxState) (packet : Packet) (peer : PeerId) :
    SameQueues σ (σ.learnAuthenticated packet peer) := by
  unfold learnAuthenticated
  cases packet.source with
  | none => exact .refl σ
  | some ep =>
    dsimp only
    split <;> exact ⟨rfl, rfl, rfl, rfl, rfl⟩

theorem learnObserved_sameQueues (σ : RxState) (packet : Packet) (peer : PeerId) :
    SameQueues σ (σ.learnObserved packet peer) := by
  unfold learnObserved
  cases packet.source with
  | none => exact .refl σ
  | some ep => exact ⟨rfl, rfl, rfl, rfl, rfl⟩

theorem learnFromHandshake_sameQueues (σ : RxState) (packet : Packet) (peer : PeerId) :
    SameQueues σ (σ.learnFromHandshake packet peer) := by
  unfold learnFromHandshake
  split
  · exact learnObserved_sameQueues σ packet peer
  · split
    · exact learnAuthenticated_sameQueues σ packet peer
    · exact .refl σ

theorem wgPacketConsumeDataDone_sameQueues (σ : RxState) (packet : Packet) (peer : PeerId) :
    SameQueues σ (σ.wgPacketConsumeDataDone packet peer) := by
  unfold wgPacketConsumeDataDone
  split
  · exact learnAuthenticated_sameQueues σ packet peer
  · exact learnObserved_sameQueues σ packet peer

end RxState

/-- The types that `wg_packet_receive` puts on the handshake queue. -/
def MessageType.isHandshake (type : Option MessageType) : Bool :=
  type == some .handshakeInitiation || type == some .handshakeResponse ||
    type == some .handshakeCookie

namespace RxState

variable {σ τ : RxState}

/-- Every message on the handshake queue is of one of the three handshake types. -/
def Sorted (σ : RxState) : Prop :=
  ∀ packet ∈ σ.handshakeQueue, MessageType.isHandshake (skbTypeLe32 packet.message) = true

/-- The handshake worker does not meet a cookie message in TCP mode. -/
def cookieHandled (σ : RxState) : RxAction → Bool
  | .handshakeWork _ =>
      match σ.handshakeQueue with
      | [] => true
      | packet :: _ =>
          σ.device.transport != .tcp || skbTypeLe32 packet.message != some .handshakeCookie
  | _ => true

def CookieHandled (σ : RxState) (a : RxAction) : Prop := σ.cookieHandled a = true

instance (σ : RxState) (a : RxAction) : Decidable (CookieHandled σ a) :=
  inferInstanceAs (Decidable (_ = true))

theorem wgPacketConsumeData_handshakes (σ : RxState) (packet : Packet) (arrival : Arrival) :
    (σ.wgPacketConsumeData packet arrival).handshakeQueue = σ.handshakeQueue ∧
      (σ.wgPacketConsumeData packet arrival).warnings = σ.warnings := by
  unfold wgPacketConsumeData
  repeat' split
  all_goals exact ⟨rfl, rfl⟩

/-- The first warning is not reachable, in any state. -/
theorem wgPacketReceive_warnings (σ : RxState) (skb : IngressSkb) (cb : PacketCb)
    (carrier : Carrier) (arrival : Arrival) :
    (σ.wgPacketReceive skb cb carrier arrival).warnings = σ.warnings := by
  unfold wgPacketReceive
  cases hprepare : prepareSkbHeader skb with
  | none => rfl
  | some message =>
    obtain ⟨type, htype⟩ := prepareSkbHeader_type hprepare
    simp only [htype]
    cases type with
    | data => exact (wgPacketConsumeData_handshakes σ _ _).2
    | _ =>
      dsimp only
      split <;> rfl

theorem wgPacketReceive_sorted (hsorted : σ.Sorted) (skb : IngressSkb) (cb : PacketCb)
    (carrier : Carrier) (arrival : Arrival) :
    (σ.wgPacketReceive skb cb carrier arrival).Sorted := by
  unfold wgPacketReceive
  cases hprepare : prepareSkbHeader skb with
  | none => exact hsorted
  | some message =>
    obtain ⟨type, htype⟩ := prepareSkbHeader_type hprepare
    simp only [htype]
    have hqueued (h : MessageType.isHandshake (some type) = true) :
        Sorted { σ with
          handshakeQueue := σ.handshakeQueue ++ [⟨message, cb, skb.source, carrier⟩] } := by
      intro packet hmem
      rcases List.mem_append.mp hmem with hold | hnew
      · exact hsorted packet hold
      · rw [List.mem_singleton.mp hnew, htype]
        exact h
    cases type with
    | data =>
      intro packet hmem
      rw [(wgPacketConsumeData_handshakes σ _ _).1] at hmem
      exact hsorted packet hmem
    | _ =>
      dsimp only
      split
      · exact hqueued rfl
      · exact hsorted

theorem processHandshake_warnings (σ : RxState) (packet : Packet) (needsCookie : Bool)
    (choice : HandshakeChoice)
    (htype : MessageType.isHandshake (skbTypeLe32 packet.message) = true) :
    (σ.processHandshake packet needsCookie choice).warnings =
      σ.warnings + if skbTypeLe32 packet.message = some .handshakeCookie then 1 else 0 := by
  unfold processHandshake
  cases hmsg : skbTypeLe32 packet.message with
  | none => simp [hmsg, MessageType.isHandshake] at htype
  | some type =>
    cases type with
    | data => simp [hmsg, MessageType.isHandshake] at htype
    | handshakeCookie => simp
    | _ =>
      simp only [Option.some.injEq, reduceCtorEq, if_false, Nat.add_zero]
      repeat' split
      · rfl
      · rfl
      · exact (learnFromHandshake_sameQueues σ packet _).warnings

/-- The second warning is hit by a cookie message in TCP mode and by nothing else. -/
theorem wgReceiveHandshakePacket_warnings (σ : RxState) (packet : Packet)
    (choice : HandshakeChoice)
    (htype : MessageType.isHandshake (skbTypeLe32 packet.message) = true) :
    (σ.wgReceiveHandshakePacket packet choice).warnings =
      σ.warnings +
        if σ.device.transport = .tcp ∧ skbTypeLe32 packet.message = some .handshakeCookie then 1
        else 0 := by
  unfold wgReceiveHandshakePacket
  by_cases htcp : σ.device.transport = .tcp
  · simp only [htcp, if_true, true_and]
    exact processHandshake_warnings σ packet false choice htype
  · simp only [htcp, if_false, false_and, Nat.add_zero]
    split
    · rfl
    · next hcookie =>
      split
      · simp [processHandshake_warnings _ _ _ _ htype, hcookie]
      · simp [processHandshake_warnings _ _ _ _ htype, hcookie]
      · rfl

theorem step_sorted (hsorted : σ.Sorted) {a : RxAction} (h : σ.step a = some τ) : τ.Sorted := by
  cases a with
  | tcpRecord record provisional prior arrival =>
    cases h
    exact wgPacketReceive_sorted hsorted _ _ _ _
  | udpDatagram skb prior arrival =>
    cases h
    exact wgPacketReceive_sorted hsorted _ _ _ _
  | handshakeWork choice =>
    simp only [step] at h
    split at h
    · cases h
    · next packet rest hqueue =>
      cases h
      intro queued hmem
      exact hsorted queued (hqueue ▸ List.mem_cons_of_mem packet hmem)
  | decrypt i ok =>
    simp only [step] at h
    split at h
    · obtain ⟨-, ⟨⟩⟩ := Option.ite_none_right_eq_some.mp h
      exact hsorted
    · cases h
  | rxPoll peer valid =>
    simp only [step] at h
    split at h
    · cases h
    · cases h
      split
      · intro packet hmem
        rw [(wgPacketConsumeDataDone_sameQueues _ _ _).handshakeQueue] at hmem
        exact hsorted packet hmem
      · exact hsorted
  | deviceUp => cases h; exact hsorted
  | deviceDown => cases h; exact fun packet hmem => absurd hmem List.not_mem_nil
  | setTransport transport =>
    obtain ⟨-, ⟨⟩⟩ := Option.ite_none_left_eq_some.mp h
    exact hsorted

/-- A step hits a warning exactly if it breaks `CookieHandled`. -/
theorem step_warnings (hsorted : σ.Sorted) {a : RxAction} (h : σ.step a = some τ) :
    τ.warnings = σ.warnings + if CookieHandled σ a then 0 else 1 := by
  cases a with
  | tcpRecord record provisional prior arrival =>
    cases h
    exact wgPacketReceive_warnings σ _ _ _ _
  | udpDatagram skb prior arrival =>
    cases h
    exact wgPacketReceive_warnings σ _ _ _ _
  | handshakeWork choice =>
    simp only [step] at h
    split at h
    · cases h
    · next packet rest hqueue =>
      cases h
      have htype := hsorted packet (hqueue ▸ List.mem_cons_self)
      have hwarns := wgReceiveHandshakePacket_warnings σ packet choice htype
      simp only [hwarns, CookieHandled, cookieHandled, hqueue, Bool.or_eq_true, bne_iff_ne, ne_eq]
      by_cases htcp : σ.device.transport = .tcp
      · by_cases hcookie : skbTypeLe32 packet.message = some .handshakeCookie
        · simp [htcp, hcookie]
        · simp [htcp, hcookie]
      · simp [htcp]
  | decrypt i ok =>
    simp only [step] at h
    split at h
    · obtain ⟨-, ⟨⟩⟩ := Option.ite_none_right_eq_some.mp h
      rfl
    · cases h
  | rxPoll peer valid =>
    simp only [step] at h
    split at h
    · cases h
    · cases h
      split
      · exact (wgPacketConsumeDataDone_sameQueues _ _ _).warnings
      · rfl
  | deviceUp => cases h; rfl
  | deviceDown => cases h; rfl
  | setTransport transport =>
    obtain ⟨-, ⟨⟩⟩ := Option.ite_none_left_eq_some.mp h
    rfl

/-- A handshake message that no peer vouches for changes nothing but the load estimate. -/
theorem wgReceiveHandshakePacket_drops (packet : Packet) (choice : HandshakeChoice)
    (htype : MessageType.isHandshake (skbTypeLe32 packet.message) = true)
    (hcookie : σ.device.transport ≠ .tcp ∨ skbTypeLe32 packet.message ≠ some .handshakeCookie)
    (hinitiation : choice.initiation = none) (hresponse : choice.response = none) :
    ∃ lastUnderLoad, σ.wgReceiveHandshakePacket packet choice =
      { σ with lastUnderLoad := lastUnderLoad } := by
  have hprocess (ρ : RxState) (needsCookie : Bool)
      (hnot : skbTypeLe32 packet.message ≠ some .handshakeCookie) :
      ρ.processHandshake packet needsCookie choice = ρ := by
    unfold processHandshake
    cases hmsg : skbTypeLe32 packet.message with
    | none => simp [hmsg, MessageType.isHandshake] at htype
    | some type => cases type <;> simp_all [MessageType.isHandshake]
  unfold wgReceiveHandshakePacket
  split
  · next htcp =>
    have hnot := hcookie.resolve_left (not_not_intro htcp)
    exact ⟨σ.lastUnderLoad, hprocess σ false hnot⟩
  · split
    · exact ⟨σ.lastUnderLoad, rfl⟩
    · next hnot =>
      dsimp only
      split
      · exact ⟨_, hprocess _ false hnot⟩
      · exact ⟨_, hprocess _ true hnot⟩
      · exact ⟨_, rfl⟩

/-- No warning is hit as long as the handshake worker meets no cookie message in TCP mode, and one
is hit as soon as it does. Everything else that is not from a known peer goes without a trace. -/
theorem dispatch_warns_iff (device : Device) (peers : PeerId → Peer) (as : List RxAction)
    (σ : RxState) (hrun : Transition.run step (.init device peers) as = some σ) :
    (σ.warnings = 0 ↔ Transition.Meets step CookieHandled (.init device peers) as) ∧
      (∀ skb cb carrier arrival, prepareSkbHeader skb = none →
        σ.wgPacketReceive skb cb carrier arrival = σ) ∧
      ∀ packet ∈ σ.handshakeQueue, ∀ choice : HandshakeChoice,
        σ.device.transport ≠ .tcp ∨ skbTypeLe32 packet.message ≠ some .handshakeCookie →
        choice.initiation = none → choice.response = none →
        ∃ lastUnderLoad, σ.wgReceiveHandshakePacket packet choice =
          { σ with lastUnderLoad := lastUnderLoad } := by
  have hinit : Sorted (.init device peers) := fun packet hmem => absurd hmem List.not_mem_nil
  have hsorted : σ.Sorted :=
    Transition.run_invariant (fun _ _ _ hs hstep => step_sorted hs hstep) hinit hrun
  refine ⟨?_, ?_, ?_⟩
  · apply And.right (Transition.run_count_eq_iff_meets (I := Sorted) ?_ ?_ ?_ hinit hrun)
    · intro ρ a ρ' hs hstep
      exact step_sorted hs hstep
    · intro ρ a ρ' hs hstep
      rw [step_warnings hs hstep]
      exact Nat.le_add_right _ _
    · intro ρ a ρ' hs hstep
      rw [step_warnings hs hstep]
      split <;> simp_all
  · intro skb cb carrier arrival hprepare
    simp [wgPacketReceive, hprepare]
  · intro packet hmem choice hcookie hinitiation hresponse
    exact wgReceiveHandshakePacket_drops packet choice (hsorted packet hmem) hcookie hinitiation
      hresponse

/-- A stream record of 64 bytes whose type is that of a cookie message. -/
def cookieRecord : TcpRecord :=
  ⟨3 :: List.replicate 63 0, List.replicate 20 0, [0, 0, 0, 0], [0, 0], .inet 1 1 1 0⟩

def cookieRun : List RxAction :=
  [.tcpRecord cookieRecord (some 1) ⟨0, 0⟩ ⟨true, true, none, .ok⟩,
    .handshakeWork ⟨0, .invalidMac, none, none⟩]

/-- In UDP mode the message is consumed. -/
theorem dispatch_warns_iff_consumed :
    ∃ σ, Transition.run step (.init ⟨.udp, true, true⟩ fun _ => .create false .unset) cookieRun =
      some σ ∧ σ.warnings = 0 := by
  obtain ⟨σ, hrun, -⟩ := Transition.exists_run_of_any
    (by decide +kernel : (Transition.run step
      (.init ⟨.udp, true, true⟩ fun _ => .create false .unset) cookieRun).any
        (fun _ => true) = true)
  have hmeets : Transition.Meets step CookieHandled
      (.init ⟨.udp, true, true⟩ fun _ => .create false .unset) cookieRun := by decide +kernel
  exact ⟨σ, hrun, (dispatch_warns_iff _ _ _ σ hrun).1.mpr hmeets⟩

/-- In TCP mode anyone who can open a connection reaches the warning with it. -/
theorem dispatch_warns_on_cookie :
    ∃ σ, Transition.run step (.init ⟨.tcp, true, true⟩ fun _ => .create false .unset) cookieRun =
      some σ ∧ σ.warnings = 1 := by
  obtain ⟨σ, hrun, hwarned⟩ := Transition.exists_run_of_any
    (by decide +kernel : (Transition.run step
      (.init ⟨.tcp, true, true⟩ fun _ => .create false .unset) cookieRun).any
        (fun σ => σ.warnings == 1) = true)
  exact ⟨σ, hrun, by simpa using hwarned⟩

end RxState

end WgTcp
