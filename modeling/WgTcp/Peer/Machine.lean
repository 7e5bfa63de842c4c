import WgTcp.Foundation.Transition
import WgTcp.Peer.Holder

/-!
# One peer and everything that runs on it

The threads that work on a peer as a transition system: the stream workers,
the socket callbacks, the requests of the rest of the module, the other work
items up to where they take `tcp_socket_lock`, the holder of that lock, and
the kernel underneath.

A socket call waits for a callback on the same socket, as the socket lock
makes it do. Of what the kernel does to a socket only the following is
assumed: `data_ready` is invoked after bytes become readable, a socket that
becomes writeable with `SOCK_NOSPACE` set gets its `write_space` call, only
sending takes writeability away, and a closed connection stays closed.
-/

namespace WgTcp

/-! ## Actions -/

inductive KernelEvent where
  /-- The listener accepts a connection and lists it under an id. -/
  | accept (s : SockId) (connectionId : Nat)
  | arrive (s : SockId) (bytes : Bytes)
  /-- Acknowledgements make room in the send buffer. -/
  | room (s : SockId)
  | transition (s : SockId) (st : TcpState)
  /-- The provisional owner of a socket reads from it. -/
  | foreignRead (s : SockId) (n : Nat)
deriving Repr, DecidableEq

/-- Outcomes of a pass of the read worker. -/
structure ReadChoice where
  outcome : ReadOutcome
  recv : RecvChoice
deriving Repr, DecidableEq

/-- The result of `kernel_sendmsg`. -/
inductive SendResult where
  | sent (n : Nat)
  | eagain
  /-- Zero, or an error other than `EAGAIN`. -/
  | failed
deriving Repr, DecidableEq

/-- What a send returns and how it leaves the socket. -/
structure SendChoice where
  result : SendResult
  writeable : Bool
  nospace : Bool
deriving Repr, DecidableEq

inductive Request where
  | enqueue (frame : Bytes)
  | dial
  | reconnect
  /-- An authenticated packet came in over the provisional carrier with this id. -/
  | authenticated (connectionId : Nat)
  | setEndpoint (ep : Endpoint) (configured : Bool)
  | learn (ep : Endpoint) (connectionId : Nat)
  /-- The configuration asks for a connection. -/
  | connect
deriving Repr, DecidableEq

/-- Threads other than the stream workers. -/
inductive Thread where
  | retry
  | admin
  | outbound
  | inbound
  | bootstrap
  | promotion
  | stop
deriving Repr, DecidableEq

inductive Lifecycle where
  | deviceDown
  | deviceUp
  /-- The peer is removed from the device, after its stop. -/
  | removePeer
  /-- The listener gives an accepted socket to this provisional peer. -/
  | install (s : SockId)
  /-- A promotion takes the socket away from this provisional peer. -/
  | handover (s : SockId)
deriving Repr, DecidableEq

inductive Action where
  | kernel (e : KernelEvent)
  | callback (s : SockId)
  | read (choice : ReadChoice)
  | write (choice : SendChoice)
  | request (r : Request)
  | thread (t : Thread) (choice : Choice)
  | locked (choice : Choice)
  | lifecycle (l : Lifecycle)
deriving Repr, DecidableEq

/-! ## The kernel -/

/-- The state changes that a connected or connecting socket goes through by itself. -/
def TcpState.reaches (before after : TcpState) : Bool :=
  match after with
  | .established => before == .synSent || before == .synRecv
  | .synRecv => before == .synSent
  | .synSent | .listen | .newSynRecv | .timeWait => false
  | _ => before != .close && before != after

/-- The states in which data of the other side is taken. -/
def TcpState.receives : TcpState → Bool
  | .established | .finWait1 | .finWait2 => true
  | _ => false

def KernelEvent.sock : KernelEvent → SockId
  | .accept s _ | .arrive s _ | .room s | .transition s _ | .foreignRead s _ => s

def Sock.kernel (sk : Sock) : KernelEvent → Option Sock
  | .accept _ connectionId =>
      if sk.stage = .unused then
        some { sk with stage := .provisional connectionId, skState := .established }
      else none
  | .arrive _ bytes =>
      if sk.stage ≠ .unused ∧ sk.callback = none ∧ sk.skState.receives ∧ bytes ≠ [] then
        some { sk with receiveQueue := sk.receiveQueue ++ bytes, callback := some .dataReady }
      else none
  | .room _ =>
      if sk.stage ≠ .unused ∧ sk.callback = none ∧ sk.writeable = false then
        some { sk with
          writeable := true
          callback := if sk.nospace then some .writeSpace else none }
      else none
  | .transition _ st =>
      if sk.stage ≠ .unused ∧ sk.callback = none ∧ sk.skState.reaches st then
        some { sk with skState := st, callback := some .stateChange }
      else none
  | .foreignRead _ n =>
      match sk.stage with
      | .provisional _ => some { sk with receiveQueue := sk.receiveQueue.drop n }
      | _ => none

/-- `sk_stream_write_space`, the callback that was installed before. -/
def Sock.originalWriteSpace (sk : Sock) : Sock :=
  { sk with nospace := sk.nospace && !sk.writeable }

/-- Where a send leads, if the kernel can answer so. -/
def SendResult.next (s : SockId) (frame : Bytes) : SendResult → Option WritePc
  | .sent n =>
      if 0 < n ∧ n ≤ frame.length then
        some (if frame.length ≤ n then .dequeue s else .requeue s (frame.drop n))
      else none
  | .eagain => some (.requeue s frame)
  | .failed => some (.fail s)

/-- The bytes of the frame that a send takes. -/
def SendResult.taken (frame : Bytes) : SendResult → Bytes
  | .sent n => frame.take n
  | .eagain | .failed => []

namespace State

def kernelStep (σ : State) (e : KernelEvent) : Option State :=
  ((σ.socks e.sock).kernel e).map (σ.setSock e.sock)

/-! ## Socket callbacks -/

def endCallback (σ : State) (s : SockId) (sk : Sock) : State :=
  σ.setSock s { sk with callback := none }

/-- What is left of `wg_tcp_state_change` after its state section, in the order of the source. -/
def stateTailStep (σ : State) (s : SockId) (inbound : Bool) (tail : StateTail) : State :=
  let sk := σ.socks s
  if tail.cancelRetry then
    (σ.setPeer σ.peer.takeRetryWork).setSock s
      { sk with callback := some (.stateTail { tail with cancelRetry := false }) }
  else if tail.bootstrap then
    (σ.setPeer (σ.peer.wgTcpQueueCarrierBootstrap s)).setSock s
      { sk with callback := some (.stateTail { tail with bootstrap := false }) }
  else if tail.removal then
    (σ.setPeer (σ.peer.queueRemoval σ.device s inbound)).endCallback s sk
  else σ.endCallback s sk

/-- One step of a callback on a socket that has the peer's callbacks installed. -/
def hookStep (σ : State) (s : SockId) (inbound : Bool) : Callback → State
  | .dataReady => (σ.setPeer (σ.peer.wgTcpDataReady σ.device)).endCallback s (σ.socks s)
  | .writeSpace =>
      (σ.setPeer (σ.peer.wgTcpWriteSpace σ.device)).setSock s
        { σ.socks s with callback := some .writeSpaceTail }
  | .writeSpaceTail => σ.endCallback s (σ.socks s).originalWriteSpace
  | .stateChange =>
      if σ.peer.stateChangeSkipped inbound then σ.endCallback s (σ.socks s)
      else σ.setSock s { σ.socks s with callback := some .stateEntered }
  | .stateEntered =>
      let change := σ.peer.stateChangeSection s inbound (σ.socks s).skState
      (σ.setPeer change.1).setSock s { σ.socks s with callback := some (.stateTail change.2) }
  | .stateTail tail => σ.stateTailStep s inbound tail

/-- The callback of a socket without the peer's callbacks is the one it was created with. -/
def plainStep (σ : State) (s : SockId) : Callback → State
  | .writeSpace | .writeSpaceTail => σ.endCallback s (σ.socks s).originalWriteSpace
  | _ => σ.endCallback s (σ.socks s)

def callbackStep (σ : State) (s : SockId) : Option State :=
  match (σ.socks s).callback, (σ.socks s).userData with
  | none, _ => none
  | some cb, some inbound => some (σ.hookStep s inbound cb)
  | some cb, none => some (σ.plainStep s cb)

/-! ## The stream workers -/

def nextReadPc (s : SockId) (packetsProcessed : Nat) (flow : Flow) : ReadPc :=
  match nextReaderPc packetsProcessed flow with
  | .idle => .idle
  | .looping n => .loop s n
  | .leaving budgetExhausted => .leave (some s) budgetExhausted

/-- The worker starts and pins the active socket, if it may. -/
def readStart (σ : State) : State :=
  { σ.setPeer { σ.peer with read := { σ.peer.read with work := false } } with
    reader :=
      match σ.peer.captureSocket σ.device with
      | some s => .loop s 0
      | none => .leave none false }

/-- One pass of the worker's loop. -/
def readIterationOn (A : SkbAllocator) (σ : State) (choice : ReadChoice) (s : SockId) : Iteration :=
  readIteration A choice.outcome (kernelRecvmsg (σ.socks s).receiveQueue choice.recv) σ.peer.parser

/-- The socket after a pass. -/
def readSock (sk : Sock) (it : Iteration) : Sock :=
  { sk with
    receiveQueue := sk.receiveQueue.drop it.taken.length
    received := sk.received ++ it.taken
    recvEnded := sk.recvEnded || it.recv.any RecvResult.terminal }

def readPass (σ : State) (s : SockId) (packetsProcessed : Nat) (it : Iteration) : State :=
  { (σ.setPeer { σ.peer with parser := it.parser }).setSock s (readSock (σ.socks s) it) with
    reader := nextReadPc s packetsProcessed it.flow }

def readFinish (σ : State) (captured : Option SockId) (budgetExhausted : Bool) : State :=
  { σ.setPeer (σ.peer.finishReader σ.device captured
      ((captured.map fun s => (σ.socks s).receiveQueue).getD []) budgetExhausted) with
    reader := .idle }

/-- `wg_tcp_read_worker`. -/
def readStep (A : SkbAllocator) (σ : State) (choice : ReadChoice) : Option State :=
  match σ.reader with
  | .idle => if σ.peer.read.work then some σ.readStart else none
  | .loop s n =>
      if (σ.socks s).callback.isSome then none
      else some (σ.readPass s n (σ.readIterationOn A choice s))
  | .leave captured budgetExhausted => some (σ.readFinish captured budgetExhausted)

/-- The ways in which the read worker moves. -/
inductive ReadMove (σ : State) (A : SkbAllocator) (choice : ReadChoice) : State → Prop where
  | start (h : σ.reader = .idle) (work : σ.peer.read.work = true) : ReadMove σ A choice σ.readStart
  | pass (s : SockId) (n : Nat) (h : σ.reader = .loop s n)
      (callback : (σ.socks s).callback = none) :
      ReadMove σ A choice (σ.readPass s n (σ.readIterationOn A choice s))
  | finish (captured : Option SockId) (budgetExhausted : Bool)
      (h : σ.reader = .leave captured budgetExhausted) :
      ReadMove σ A choice (σ.readFinish captured budgetExhausted)

theorem readStep_cases {A : SkbAllocator} {σ τ : State} {choice : ReadChoice}
    (h : σ.readStep A choice = some τ) : σ.ReadMove A choice τ := by
  unfold readStep at h
  split at h
  · split at h
    · cases h
      exact .start ‹_› ‹_›
    · cases h
  · split at h
    · cases h
    · cases h
      exact .pass _ _ ‹_› (by simp_all)
  · cases h
    exact .finish _ _ ‹_›

/-- The worker starts and pins the active socket, if it may. -/
def writeStart (σ : State) : State :=
  { σ.setPeer { σ.peer with write := { σ.peer.write with work := false } } with
    writer :=
      match σ.peer.captureSocket σ.device with
      | some s => .dequeue s
      | none => .leave none }

def writeDequeue (σ : State) (s : SockId) : State :=
  match σ.peer.sendQueue with
  | [] => { σ with writer := .leave (some s) }
  | frame :: rest => { σ.setPeer { σ.peer with sendQueue := rest } with writer := .send s frame }

/-- The socket after a send; `SOCK_NOSPACE` is set by it at most, never cleared. -/
def sendSock (sk : Sock) (choice : SendChoice) (frame : Bytes) : Sock :=
  { sk with
    wire := sk.wire ++ choice.result.taken frame
    sendFailed := sk.sendFailed || choice.result == .failed
    writeable := choice.writeable
    nospace := sk.nospace || choice.nospace }

/-- `kernel_sendmsg` of a dequeued frame. -/
def writeSend (σ : State) (s : SockId) (frame : Bytes) (choice : SendChoice) (pc : WritePc) :
    State :=
  { σ.setSock s (sendSock (σ.socks s) choice frame) with writer := pc }

def writeRequeue (σ : State) (s : SockId) (rest : Bytes) : State :=
  { σ.setPeer { σ.peer with sendQueue := rest :: σ.peer.sendQueue } with writer := .arm s }

/-- `wg_tcp_arm_write_space`. -/
def writeArm (σ : State) (s : SockId) : State :=
  { σ.setSock s { σ.socks s with nospace := true } with writer := .leave (some s) }

def writeFail (σ : State) (s : SockId) : State :=
  { σ.setPeer (σ.peer.wgTcpFailExactSocket σ.device s) with writer := .leave (some s) }

def writeFinish (σ : State) (captured : Option SockId) : State :=
  { σ.setPeer (σ.peer.finishWriter σ.device captured
      (captured.any fun s => (σ.socks s).writeable)) with
    writer := .idle }

/-- `wg_tcp_write_worker`. -/
def writeStep (σ : State) (choice : SendChoice) : Option State :=
  match σ.writer with
  | .idle => if σ.peer.write.work then some σ.writeStart else none
  | .dequeue s => some (σ.writeDequeue s)
  | .send s frame =>
      if (σ.socks s).callback.isSome then none
      else (choice.result.next s frame).map (σ.writeSend s frame choice)
  | .requeue s rest => some (σ.writeRequeue s rest)
  | .arm s => some (σ.writeArm s)
  | .fail s => some (σ.writeFail s)
  | .leave captured => some (σ.writeFinish captured)

/-- The ways in which the write worker moves. -/
inductive WriteMove (σ : State) (choice : SendChoice) : State → Prop where
  | start (h : σ.writer = .idle) (work : σ.peer.write.work = true) : WriteMove σ choice σ.writeStart
  | dequeue (s : SockId) (h : σ.writer = .dequeue s) : WriteMove σ choice (σ.writeDequeue s)
  | send (s : SockId) (frame : Bytes) (pc : WritePc) (h : σ.writer = .send s frame)
      (callback : (σ.socks s).callback = none) (next : choice.result.next s frame = some pc) :
      WriteMove σ choice (σ.writeSend s frame choice pc)
  | requeue (s : SockId) (rest : Bytes) (h : σ.writer = .requeue s rest) :
      WriteMove σ choice (σ.writeRequeue s rest)
  | arm (s : SockId) (h : σ.writer = .arm s) : WriteMove σ choice (σ.writeArm s)
  | fail (s : SockId) (h : σ.writer = .fail s) : WriteMove σ choice (σ.writeFail s)
  | finish (captured : Option SockId) (h : σ.writer = .leave captured) :
      WriteMove σ choice (σ.writeFinish captured)

theorem writeStep_cases {σ τ : State} {choice : SendChoice} (h : σ.writeStep choice = some τ) :
    σ.WriteMove choice τ := by
  unfold writeStep at h
  split at h
  · split at h
    · cases h
      exact .start ‹_› ‹_›
    · cases h
  · cases h
    exact .dequeue _ ‹_›
  · split at h
    · cases h
    · obtain ⟨pc, hpc, rfl⟩ := Option.map_eq_some_iff.mp h
      exact .send _ _ pc ‹_› (by simp_all) hpc
  · cases h
    exact .requeue _ _ ‹_›
  · cases h
    exact .arm _ ‹_›
  · cases h
    exact .fail _ ‹_›
  · cases h
    exact .finish _ ‹_›

/-! ## Requests -/

/-- A frame is noted with the socket that was active when it was accepted. -/
def enqueueStep (queueLimit : Nat) (σ : State) (frame : Bytes) : State :=
  match σ.peer.wgTcpEnqueueFrame queueLimit σ.device frame, σ.peer.links.peerSocket with
  | .ok p, some s =>
      (σ.setPeer p).setSock s { σ.socks s with accepted := (σ.socks s).accepted ++ [frame] }
  | _, _ => σ

/-- Provisional peers are only sent frames to; everything else concerns configured peers. -/
def requestStep (queueLimit : Nat) (σ : State) : Request → Option State
  | .enqueue frame => some (σ.enqueueStep queueLimit frame)
  | .dial =>
      if σ.peer.tempPeer then none else some (σ.setPeer (σ.peer.requestDial σ.device))
  | .reconnect =>
      if σ.peer.tempPeer then none
      else some (σ.setPeer (σ.peer.wgTcpPeerRequestReconnectAfter σ.device))
  | .authenticated connectionId =>
      if σ.peer.tempPeer then none
      else some (σ.setPeer (σ.peer.requestPromotion connectionId))
  | .setEndpoint ep configured =>
      if σ.peer.tempPeer then none
      else
        some (σ.setPeer { σ.peer with
          addressing := (wgSocketSetPeerEndpointInternal σ.device.transport
            σ.device.netifRunning σ.peer.conn.established σ.peer.addressing ep configured).1 })
  | .learn ep connectionId =>
      if σ.peer.tempPeer then none
      else
        some (σ.setPeer { σ.peer with
          addressing := (learnDialTarget σ.peer.addressing ep connectionId).1 })
  | .connect =>
      if σ.peer.tempPeer ∨ σ.admin ≠ none then none else some { σ with admin := some .wait }

/-! ## Work items, up to the socket lock -/

/-- A call of `wg_tcp_connect`: its way into the lock, and what its caller does with the result.
Only the configuration does not try again. -/
def dialStep (σ : State) (caller : Caller) : DialPc → Option State
  | .wait =>
      if σ.device.transport ≠ .tcp then some (σ.setCaller caller (some .failed))
      else if σ.lock = none then
        some ((σ.setCaller caller (some .inside)).hold (.connectGate caller))
      else none
  | .inside => none
  | .greet s =>
      some ((σ.setPeer (σ.peer.wgTcpQueueCarrierBootstrap s)).setCaller caller none)
  | .failed =>
      some ((match caller with
        | .admin => σ
        | _ => σ.setPeer σ.peer.scheduleRetry).setCaller caller none)

/-- `wg_tcp_retry_worker`. -/
def retryStep (σ : State) : Option State :=
  match σ.retry with
  | none =>
      if σ.peer.retry.work then
        let begun := σ.peer.takeRetryWork.beginRetry σ.device
        some { σ.setPeer begun.2 with retry := if begun.1 then some .wait else none }
      else none
  | some pc => σ.dialStep .retry pc

/-- What `wg_tcp_outbound_remove_worker` does after it has given the lock back. -/
def outboundPostStep (σ : State) (post : OutboundPost) : State :=
  if post.failed || post.stopping || σ.peer.isDead || !σ.device.tcpCleanupScheduled ||
      σ.device.transport != .tcp then
    { σ with outbound := .idle }
  else if post.reclaim then
    { σ.setPeer (σ.peer.wgTcpPeerRequestReconnectAfter σ.device) with outbound := .idle }
  else if post.reconnect then { σ with outbound := .dial .wait }
  else if post.retryNeeded then { σ.setPeer σ.peer.scheduleRetry with outbound := .idle }
  else { σ with outbound := .idle }

/-- `wg_tcp_outbound_remove_worker`. -/
def outboundStep (σ : State) : Option State :=
  match σ.outbound with
  | .idle =>
      if σ.peer.outboundRemove.work then
        some { σ.setPeer σ.peer.takeOutboundWork with
          outbound := .cancelRetry (σ.peer.retry.scheduled || σ.peer.retry.work) }
      else none
  | .cancelRetry retryNeeded =>
      if σ.retry = none then
        some { σ.setPeer σ.peer.takeRetryWork with outbound := .wait retryNeeded }
      else none
  | .wait retryNeeded =>
      if σ.lock = none then some { σ.hold (.outboundView retryNeeded) with outbound := .inside }
      else none
  | .inside => none
  | .post post => some (σ.outboundPostStep post)
  | .dial pc => σ.dialStep .outbound pc

/-- `wg_tcp_inbound_remove_worker`. -/
def inboundStep (σ : State) : Option State :=
  match σ.inbound with
  | .idle =>
      if σ.peer.inboundRemove.work then
        if σ.peer.tempPeer then some (σ.setPeer { σ.peer.takeInboundWork with isDead := true })
        else some { σ.setPeer σ.peer.takeInboundWork with inbound := .wait }
      else none
  | .wait => if σ.lock = none then some { σ.hold .inboundView with inbound := .inside } else none
  | .inside => none

/-- `wg_tcp_bootstrap_worker`. -/
def bootstrapStep (σ : State) : Option State :=
  match σ.bootstrap with
  | .idle =>
      if σ.peer.tcpBootstrapWork then
        some { σ.setPeer σ.peer.takeBootstrapWork with bootstrap := .wait }
      else none
  | .wait =>
      if σ.lock = none then some { σ.hold .bootstrapTake with bootstrap := .inside } else none
  | .inside => none

/-- `wg_tcp_promotion_worker`, with the part of a promotion that comes before the lock: the list
entry is claimed unless the carrier is stale, initializing or gone. -/
def promotionStep (σ : State) (choice : Choice) : Option State :=
  match σ.promotion with
  | .idle =>
      if σ.peer.promotion.work then
        some { σ.setPeer σ.peer.takePromotionWork with promotion := .take }
      else none
  | .take =>
      some { σ.setPeer σ.peer.takePromotion with
        promotion :=
          if σ.peer.tcpPromotionConnectionId = 0 then .idle
          else .claim σ.peer.tcpPromotionConnectionId }
  | .claim connectionId =>
      let sk := σ.socks choice.sock
      if choice.ok = false ∨ connectionId < σ.peer.addressing.tcpRoamingConnectionId ∨
          σ.device.transport ≠ .tcp then
        some { σ with promotion := .take }
      else if sk.stage = .provisional connectionId then
        some { σ.setSock choice.sock { sk with stage := .promoting } with
          promotion := .wait choice.sock connectionId }
      else none
  | .wait s connectionId =>
      if σ.lock = none then
        some { σ.hold (.promoteCheck s connectionId) with promotion := .inside }
      else none
  | .inside => none

/-- `wg_tcp_peer_stop` and `wg_destroy_temp_peer`. -/
def stopStepOutside (σ : State) : Option State :=
  match σ.stop with
  | .idle | .begin | .done =>
      some { σ.setPeer (if σ.peer.tempPeer then σ.peer.destroyClaim else σ.peer.stopClaim) with
        stop := .cancelRetry }
  | .cancelRetry =>
      if σ.retry = none then
        some { σ.setPeer σ.peer.takeRetryWork with stop := .cancelOutbound }
      else none
  | .cancelOutbound =>
      if σ.outbound = .idle then
        some { σ.setPeer σ.peer.takeOutboundWork with stop := .cancelInbound }
      else none
  | .cancelInbound =>
      if σ.inbound = .idle then
        some { σ.setPeer σ.peer.takeInboundWork with
          stop := if σ.peer.tempPeer then .wait else .cancelBootstrap }
      else none
  | .cancelBootstrap =>
      if σ.bootstrap = .idle then
        some { σ.setPeer σ.peer.takeBootstrapWork with stop := .cancelPromotion }
      else none
  | .cancelPromotion =>
      if σ.promotion = .idle then
        some { σ.setPeer σ.peer.takePromotionWork with stop := .wait }
      else none
  | .wait =>
      if σ.lock = none then
        let inbound := σ.peer.links.inboundSocket
        some { σ.hold (if σ.peer.tempPeer then .drain inbound.toList (.destroy inbound) true
            else .stopReclaim) with
          stop := .inside }
      else none
  | .inside => none
  | .finish failed => some { σ.setPeer (σ.peer.stopFinish failed) with stop := .done }

def threadStep (σ : State) (choice : Choice) : Thread → Option State
  | .retry => σ.retryStep
  | .admin => σ.admin.bind (σ.dialStep .admin)
  | .outbound => σ.outboundStep
  | .inbound => σ.inboundStep
  | .bootstrap => σ.bootstrapStep
  | .promotion => σ.promotionStep choice
  | .stop => σ.stopStepOutside

/-! ## Device and peer lifetime -/

def lifecycleStep (σ : State) : Lifecycle → Option State
  | .deviceDown =>
      some { σ with
        device := { σ.device with tcpCleanupScheduled := false, netifRunning := false } }
  | .deviceUp =>
      if σ.stop = .done ∧ σ.device.tcpCleanupScheduled = false ∧ σ.peer.isDead = false ∧
          σ.peer.tempPeer = false then
        some { σ.setPeer σ.peer.wgOpen with
          device := { σ.device with tcpCleanupScheduled := true, netifRunning := true }
          stop := if σ.peer.tcpTeardownQuarantined then .done else .idle }
      else none
  | .removePeer =>
      if σ.stop = .done ∧ σ.peer.tempPeer = false then some (σ.setPeer σ.peer.peerMakeDead)
      else none
  | .install s =>
      match (σ.socks s).stage with
      | .provisional _ =>
          if σ.peer.tempPeer ∧ σ.stop = .idle ∧ σ.lock = none ∧ σ.peer.links = .none ∧
              σ.peer.isDead = false then
            some (((σ.setPeer (σ.peer.install s)).setSock s { σ.socks s with stage := .owned }).hold
              (.installSetup s))
          else none
      | _ => none
  | .handover s =>
      if σ.peer.tempPeer ∧ σ.lock = none then some (σ.hold (.handoverClaim s)) else none

end State

/-! ## The system -/

def State.step (A : SkbAllocator) (queueLimit : Nat) (σ : State) : Action → Option State
  | .kernel e => σ.kernelStep e
  | .callback s => σ.callbackStep s
  | .read choice => σ.readStep A choice
  | .write choice => σ.writeStep choice
  | .request r => σ.requestStep queueLimit r
  | .thread t choice => σ.threadStep choice t
  | .locked choice => σ.lock.bind (σ.lockedStep choice)
  | .lifecycle l => σ.lifecycleStep l

/-- Runs of a peer from its creation. -/
def State.Reaches (A : SkbAllocator) (queueLimit : Nat) (tempPeer : Bool) (addressing : Addressing)
    (as : List Action) (σ : State) : Prop :=
  Transition.run (State.step A queueLimit) (.init tempPeer addressing) as = some σ

end WgTcp
