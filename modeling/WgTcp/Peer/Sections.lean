import WgTcp.Peer.State

/-!
# Sections under `tcp_lock`

The critical sections of producers, workers, socket callbacks and requests:
each is one function on the peer's fields, since `tcp_lock` makes it atomic.
None of them holds `tcp_socket_lock`; what they may do to a peer is summed up
by `Peer.Outside`.
-/

namespace WgTcp.Peer

/-! ## What a section may do without the socket lock -/

/-- No work item of a thread other than the stream workers is queued anew. -/
@[mk_iff] structure NoNewWork (p q : Peer) : Prop where
  retry : q.retry.work = true → p.retry.work = true
  outbound : q.outboundRemove.work = true → p.outboundRemove.work = true
  inbound : q.inboundRemove.work = true → p.inboundRemove.work = true
  bootstrap : q.tcpBootstrapWork = true → p.tcpBootstrapWork = true
  promotion : q.promotion.work = true → p.promotion.work = true

theorem NoNewWork.refl (p : Peer) : NoNewWork p p := ⟨id, id, id, id, id⟩

theorem NoNewWork.trans {p q r : Peer} (h : NoNewWork p q) (h' : NoNewWork q r) : NoNewWork p r :=
  ⟨h.retry ∘ h'.retry, h.outbound ∘ h'.outbound, h.inbound ∘ h'.inbound,
    h.bootstrap ∘ h'.bootstrap, h.promotion ∘ h'.promotion⟩

/-- Sockets and callbacks stay as they are, claims are only added, stream work is queued only
while the stream is open, other work only before a stop, and a promotion only for a configured
peer. -/
@[mk_iff] structure Keeps (d : Device) (p q : Peer) : Prop where
  tempPeer : q.tempPeer = p.tempPeer
  isDead : p.isDead = true → q.isDead = true
  dead : p.tempPeer = false → q.isDead = p.isDead
  tcpStopping : q.tcpStopping = p.tcpStopping
  quarantined : q.tcpTeardownQuarantined = p.tcpTeardownQuarantined
  links : q.links = p.links
  hooks : q.hooks = p.hooks
  outbound : p.outboundRemove.Grows q.outboundRemove p.links.outboundSocket
  inbound : p.inboundRemove.Grows q.inboundRemove p.links.inboundSocket
  streamWq : q.streamWq = p.streamWq
  reads : q.read.work = true → p.read.work = true ∨ p.streamOpen d = true
  writes : q.write.work = true → p.write.work = true ∨ p.streamOpen d = true
  stopped : p.tcpStopping = true → NoNewWork p q
  promotions : p.tempPeer = true → q.promotion.work = true → p.promotion.work = true

/-- Moreover neither the send queue nor the parser is touched. -/
@[mk_iff] structure Outside (d : Device) (p q : Peer) : Prop extends Keeps d p q where
  sendQueue : q.sendQueue = p.sendQueue
  parser : q.parser = p.parser

theorem Outside.refl (d : Device) (p : Peer) : Outside d p p where
  tempPeer := rfl
  isDead := id
  dead := fun _ => rfl
  tcpStopping := rfl
  quarantined := rfl
  links := rfl
  hooks := rfl
  outbound := .inl ⟨rfl, rfl⟩
  inbound := .inl ⟨rfl, rfl⟩
  streamWq := rfl
  reads := .inl
  writes := .inl
  stopped := fun _ => .refl p
  promotions := fun _ => id
  sendQueue := rfl
  parser := rfl

theorem Keeps.streamOpen {d : Device} {p q : Peer} (h : Keeps d p q)
    (hq : q.streamOpen d = true) : p.streamOpen d = true := by
  have hdead := h.isDead
  have hout := h.outbound
  have hin := h.inbound
  simp_all [Peer.streamOpen, live, h.tcpStopping, Removal.Grows]

theorem Keeps.trans {d : Device} {p q r : Peer} (h : Keeps d p q) (h' : Keeps d q r) :
    Keeps d p r where
  tempPeer := h'.tempPeer.trans h.tempPeer
  isDead := h'.isDead ∘ h.isDead
  dead := fun ht => (h'.dead (h.tempPeer.trans ht)).trans (h.dead ht)
  tcpStopping := h'.tcpStopping.trans h.tcpStopping
  quarantined := h'.quarantined.trans h.quarantined
  links := h'.links.trans h.links
  hooks := h'.hooks.trans h.hooks
  outbound := h.outbound.trans (h.links ▸ h'.outbound)
  inbound := h.inbound.trans (h.links ▸ h'.inbound)
  streamWq := h'.streamWq.trans h.streamWq
  reads := fun hr => (h'.reads hr).elim h.reads fun ho => .inr (h.streamOpen ho)
  writes := fun hr => (h'.writes hr).elim h.writes fun ho => .inr (h.streamOpen ho)
  stopped := fun hs => (h.stopped hs).trans (h'.stopped (h.tcpStopping.trans hs))
  promotions := fun ht => h.promotions ht ∘ h'.promotions (h.tempPeer.trans ht)

theorem Outside.trans {d : Device} {p q r : Peer} (h : Outside d p q) (h' : Outside d q r) :
    Outside d p r :=
  { h.toKeeps.trans h'.toKeeps with
    sendQueue := h'.sendQueue.trans h.sendQueue
    parser := h'.parser.trans h.parser }

/-- The stream workers only touch the stream: their own work, the queue and the parser. -/
theorem keeps_stream (d : Device) (p : Peer) (read write : WorkItem) (queue : List Bytes)
    (parser : Parser) (hread : read.work = true → p.read.work = true)
    (hwrite : write.work = true → p.write.work = true) :
    Keeps d p { p with read := read, write := write, sendQueue := queue, parser := parser } :=
  { (Outside.refl d p).toKeeps with
    reads := fun h => .inl (hread h)
    writes := fun h => .inl (hwrite h)
    stopped := fun _ => ⟨id, id, id, id, id⟩ }

attribute [local simp] Removal.Grows Removal.claim Removal.mark WorkItem.queued live
  outside_iff keeps_iff noNewWork_iff

/-! ## Producers and the writer -/

def wgTcpScheduleWriteLocked (d : Device) (p : Peer) : Peer :=
  if p.streamOpen d && p.links.peerSocket.isSome && p.conn.established && p.streamWq &&
      !p.write.scheduled then
    { p with write := .queued }
  else p

theorem wgTcpScheduleWriteLocked_eq (d : Device) (p : Peer) :
    wgTcpScheduleWriteLocked d p = { p with
      write :=
        if p.streamOpen d && p.links.peerSocket.isSome && p.conn.established && p.streamWq &&
            !p.write.scheduled then .queued
        else p.write } := by
  unfold wgTcpScheduleWriteLocked
  split_ifs <;> rfl

theorem wgTcpScheduleWriteLocked_outside (d : Device) (p : Peer) :
    Outside d p (wgTcpScheduleWriteLocked d p) := by
  unfold wgTcpScheduleWriteLocked
  split <;> simp_all

inductive SendError where
  | enotconn
  | enobufs
deriving Repr, DecidableEq

def wgTcpEnqueueFrame (queueLimit : Nat) (d : Device) (p : Peer) (frame : Bytes) :
    Except SendError Peer :=
  if !p.streamOpen d || d.transport != .tcp || p.links.peerSocket.isNone ||
      !p.conn.established then
    .error .enotconn
  else if queueLimit ≤ p.sendQueue.length then .error .enobufs
  else .ok (wgTcpScheduleWriteLocked d { p with sendQueue := p.sendQueue ++ [frame] })

/-- A frame is accepted only for an open, established stream, and goes to the end of the queue. -/
theorem wgTcpEnqueueFrame_ok {queueLimit : Nat} {d : Device} {p q : Peer} {frame : Bytes}
    (h : wgTcpEnqueueFrame queueLimit d p frame = .ok q) :
    p.streamOpen d = true ∧ p.conn.established = true ∧ p.links.peerSocket.isSome = true ∧
      p.sendQueue.length < queueLimit ∧
      q = wgTcpScheduleWriteLocked d { p with sendQueue := p.sendQueue ++ [frame] } := by
  unfold wgTcpEnqueueFrame at h
  split at h
  · cases h
  split at h
  · cases h
  · simp_all [Option.isSome_iff_ne_none]

/-- `wg_socket_send_skb_to_peer` without a carrier: have one dialed. -/
def requestDial (d : Device) (p : Peer) : Peer :=
  if p.live d && d.transport == .tcp && p.addressing.peerEndpointSet && !p.retry.scheduled &&
      !p.outboundRemove.scheduled then
    { p with retry := .queued }
  else p

theorem requestDial_outside (d : Device) (p : Peer) : Outside d p (requestDial d p) := by
  unfold requestDial
  split <;> simp_all

/-- The socket a worker pins when it starts. -/
def captureSocket (d : Device) (p : Peer) : Option SockId :=
  if p.streamOpen d && p.conn.established then p.links.peerSocket else none

theorem captureSocket_eq_some {d : Device} {p : Peer} {s : SockId} :
    captureSocket d p = some s ↔
      p.streamOpen d = true ∧ p.conn.established = true ∧ p.links.peerSocket = some s := by
  simp [captureSocket, and_assoc]

/-- Whether a worker that ends may queue itself again on the socket it pinned. -/
def stillCurrent (d : Device) (p : Peer) (captured : Option SockId) : Bool :=
  p.streamOpen d && p.streamWq && captured.isSome && p.links.peerSocket == captured

/-- The end of `wg_tcp_write_worker`. -/
def finishWriter (d : Device) (p : Peer) (captured : Option SockId) (writeable : Bool) : Peer :=
  if p.stillCurrent d captured && p.conn.established && !p.sendQueue.isEmpty && writeable then
    { p with write := .queued }
  else { p with write := { p.write with scheduled := false } }

theorem finishWriter_outside (d : Device) (p : Peer) (captured : Option SockId) (writeable : Bool) :
    Outside d p (finishWriter d p captured writeable) := by
  unfold finishWriter
  split <;> simp_all [stillCurrent]

def wgTcpFailExactSocket (d : Device) (p : Peer) (s : SockId) : Peer :=
  if p.links.peerSocket != some s then p
  else if p.tempPeer then
    if p.links.inboundSocket != some s then p else { p with isDead := true }
  else if !p.live d || d.transport != .tcp || p.links.outboundSocket != some s then p
  else if p.outboundRemove.scheduled && p.outboundRemove.socket != some s then p
  else
    { p with
      conn := { p.conn with outbound := false, pending := false, established := false }
      tcpReconnectRequested := true
      outboundRemove :=
        if !p.conn.connecting && !p.outboundRemove.scheduled then .claim (some s)
        else p.outboundRemove }

theorem wgTcpFailExactSocket_outside (d : Device) (p : Peer) (s : SockId) :
    Outside d p (wgTcpFailExactSocket d p s) := by
  unfold wgTcpFailExactSocket
  repeat' split
  all_goals simp_all

/-! ## The reader -/

/-- The end of `wg_tcp_read_worker`. -/
def finishReader (d : Device) (p : Peer) (captured : Option SockId) (receiveQueue : Bytes)
    (budgetExhausted : Bool) : Peer :=
  if p.stillCurrent d captured && readAgain receiveQueue budgetExhausted p.parser then
    { p with read := .queued }
  else { p with read := { p.read with scheduled := false } }

theorem finishReader_outside (d : Device) (p : Peer) (captured : Option SockId)
    (receiveQueue : Bytes) (budgetExhausted : Bool) :
    Outside d p (finishReader d p captured receiveQueue budgetExhausted) := by
  unfold finishReader
  split <;> simp_all [stillCurrent]

/-! ## Socket callbacks -/

def wgTcpDataReady (d : Device) (p : Peer) : Peer :=
  if p.streamOpen d && !p.read.scheduled && p.streamWq then { p with read := .queued } else p

theorem wgTcpDataReady_outside (d : Device) (p : Peer) : Outside d p (wgTcpDataReady d p) := by
  unfold wgTcpDataReady
  split <;> simp_all

def wgTcpWriteSpace (d : Device) (p : Peer) : Peer :=
  if p.isDead || !p.streamWq then p else wgTcpScheduleWriteLocked d p

theorem wgTcpWriteSpace_outside (d : Device) (p : Peer) : Outside d p (wgTcpWriteSpace d p) := by
  unfold wgTcpWriteSpace
  split
  · exact .refl d p
  · exact wgTcpScheduleWriteLocked_outside d p

/-- The unlocked check with which `wg_tcp_state_change` begins. -/
def stateChangeSkipped (p : Peer) (inbound : Bool) : Bool :=
  p.isDead || (!inbound && p.outboundRemove.scheduled) || (inbound && p.inboundRemove.scheduled)

/-- The flag says that this was the first observation. -/
def wgTcpPublishOutboundEstablishedLocked (p : Peer) (s : SockId) : Bool × Peer :=
  if p.links.peerSocket != some s || p.links.outboundSocket != some s then (false, p)
  else
    (!p.conn.established || !p.conn.outbound,
      { p with conn := { p.conn with pending := false, established := true, outbound := true } })

/-- `TCP_ESTABLISHED` in `wg_tcp_state_change`. -/
def stateEstablished (p : Peer) (s : SockId) (inbound : Bool) : Peer × StateTail :=
  if p.tempPeer || inbound || p.links.outboundSocket != some s then (p, .nothing)
  else
    let published := wgTcpPublishOutboundEstablishedLocked p s
    ({ published.2 with retry := { p.retry with scheduled := false } },
      ⟨p.retry.scheduled, published.1, false⟩)

/-- A closed inbound socket of a configured peer. -/
def stateClosedInbound (p : Peer) (s : SockId) : Peer × StateTail :=
  if p.links.inboundSocket != some s then (p, .nothing)
  else
    ({ p with
        conn := { p.conn with inbound := false }.settle
        inboundRemove :=
          if p.inboundRemove.scheduled then p.inboundRemove
          else p.inboundRemove.mark p.links.inboundSocket },
      ⟨false, false, !p.inboundRemove.scheduled⟩)

/-- A closed outbound socket of a configured peer; a connect in progress cleans up itself. -/
def stateClosedOutbound (p : Peer) (s : SockId) : Peer × StateTail :=
  if p.links.outboundSocket != some s then (p, .nothing)
  else if p.conn.connecting then
    ({ p with conn := { p.conn with outbound := false, pending := false } }, .nothing)
  else
    ({ p with
        conn := { p.conn with outbound := false, pending := false }.settle
        tcpReconnectRequested := true
        outboundRemove :=
          if p.outboundRemove.scheduled then p.outboundRemove
          else p.outboundRemove.mark p.links.outboundSocket },
      ⟨false, false, !p.outboundRemove.scheduled⟩)

/-- The state section of `wg_tcp_state_change`. -/
def stateChangeSection (p : Peer) (s : SockId) (inbound : Bool) (skState : TcpState) :
    Peer × StateTail :=
  if skState = .established then p.stateEstablished s inbound
  else if skState.closed then
    if p.tempPeer then ({ p with isDead := true }, .nothing)
    else if inbound then p.stateClosedInbound s
    else p.stateClosedOutbound s
  else (p, .nothing)

theorem stateChangeSection_outside (d : Device) (p : Peer) (s : SockId) (inbound : Bool)
    (skState : TcpState) : Outside d p (stateChangeSection p s inbound skState).1 := by
  unfold stateChangeSection stateEstablished wgTcpPublishOutboundEstablishedLocked
    stateClosedInbound stateClosedOutbound
  repeat' split
  all_goals simp_all

def wgTcpQueueCarrierBootstrap (p : Peer) (s : SockId) : Peer :=
  if !p.isDead && !p.tcpStopping && p.links.peerSocket == some s &&
      p.links.outboundSocket == some s then
    { p with tcpBootstrapSocket := some s, tcpBootstrapWork := true }
  else p

theorem wgTcpQueueCarrierBootstrap_outside (d : Device) (p : Peer) (s : SockId) :
    Outside d p (wgTcpQueueCarrierBootstrap p s) := by
  unfold wgTcpQueueCarrierBootstrap
  split <;> simp_all

/-- The last section of `wg_tcp_state_change`: publish the removal work it claimed. -/
def queueRemoval (d : Device) (p : Peer) (s : SockId) (inbound : Bool) : Peer :=
  if !p.live d then p
  else if inbound then
    if p.inboundRemove.scheduled && p.inboundRemove.socket == p.links.inboundSocket &&
        p.links.inboundSocket == some s then
      { p with inboundRemove := { p.inboundRemove with work := true } }
    else p
  else if p.outboundRemove.scheduled && p.outboundRemove.socket == p.links.outboundSocket &&
      p.links.outboundSocket == some s then
    { p with outboundRemove := { p.outboundRemove with work := true } }
  else p

theorem queueRemoval_outside (d : Device) (p : Peer) (s : SockId) (inbound : Bool) :
    Outside d p (queueRemoval d p s inbound) := by
  unfold queueRemoval
  repeat' split
  all_goals simp_all

/-! ## Work items

A work item that starts, or is cancelled, is not queued any more. -/

def takeRetryWork (p : Peer) : Peer := { p with retry := { p.retry with work := false } }

def takeOutboundWork (p : Peer) : Peer :=
  { p with outboundRemove := { p.outboundRemove with work := false } }

def takeInboundWork (p : Peer) : Peer :=
  { p with inboundRemove := { p.inboundRemove with work := false } }

def takeBootstrapWork (p : Peer) : Peer := { p with tcpBootstrapWork := false }

def takePromotionWork (p : Peer) : Peer :=
    { p with promotion := { p.promotion with work := false } }

theorem takeRetryWork_outside (d : Device) (p : Peer) : Outside d p p.takeRetryWork := by
  simp +contextual [takeRetryWork]

theorem takeOutboundWork_outside (d : Device) (p : Peer) : Outside d p p.takeOutboundWork := by
  simp +contextual [takeOutboundWork]

theorem takeInboundWork_outside (d : Device) (p : Peer) : Outside d p p.takeInboundWork := by
  simp +contextual [takeInboundWork]

theorem takeBootstrapWork_outside (d : Device) (p : Peer) : Outside d p p.takeBootstrapWork := by
  simp +contextual [takeBootstrapWork]

theorem takePromotionWork_outside (d : Device) (p : Peer) : Outside d p p.takePromotionWork := by
  simp +contextual [takePromotionWork]

/-! ## Requests and retries -/

def wgTcpPeerRequestReconnectAfter (d : Device) (p : Peer) : Peer :=
  if !p.live d || d.transport != .tcp || !d.netifRunning || !p.addressing.peerEndpointSet then p
  else
    { p with
      tcpReconnectRequested := true
      outboundRemove :=
        if !p.conn.connecting && !p.outboundRemove.scheduled then .claim p.links.outboundSocket
        else p.outboundRemove }

theorem wgTcpPeerRequestReconnectAfter_outside (d : Device) (p : Peer) :
    Outside d p (wgTcpPeerRequestReconnectAfter d p) := by
  unfold wgTcpPeerRequestReconnectAfter
  repeat' split
  all_goals simp_all

/-- The first section of `wg_tcp_retry_worker`; the flag says whether it goes on to connect. -/
def beginRetry (d : Device) (p : Peer) : Bool × Peer :=
  if !p.live d || d.transport != .tcp then
    (false, { p with retry := { p.retry with scheduled := false } })
  else if !p.conn.established && p.conn.pending then
    (false, { p with
      retry := { p.retry with scheduled := false }
      tcpReconnectRequested := true
      outboundRemove :=
        if p.outboundRemove.scheduled then p.outboundRemove else .claim p.links.outboundSocket })
  else (!p.outboundRemove.scheduled, { p with retry := { p.retry with scheduled := false } })

theorem beginRetry_outside (d : Device) (p : Peer) : Outside d p (beginRetry d p).2 := by
  unfold beginRetry
  repeat' split
  all_goals simp_all

/-- Try again later, unless that is already arranged or a stop has begun. -/
def scheduleRetry (p : Peer) : Peer :=
  if !p.tcpStopping && !p.retry.scheduled then { p with retry := .queued } else p

theorem scheduleRetry_outside (d : Device) (p : Peer) : Outside d p (scheduleRetry p) := by
  unfold scheduleRetry
  split <;> simp_all

/-- The promotion half of `wg_socket_set_peer_endpoint_authenticated`. -/
def requestPromotion (p : Peer) (connectionId : Nat) : Peer :=
  if !p.isDead && !p.tcpStopping && decide (p.tcpPromotionConnectionId < connectionId) then
    { p with
      tcpPromotionConnectionId := connectionId
      promotion := if p.promotion.scheduled then p.promotion else .queued }
  else p

theorem requestPromotion_outside (d : Device) {p : Peer} (hp : p.tempPeer = false)
    (connectionId : Nat) : Outside d p (requestPromotion p connectionId) := by
  unfold requestPromotion
  repeat' split
  all_goals simp_all

/-- One turn of the loop of `wg_tcp_promotion_worker`; a zero id ends it. -/
def takePromotion (p : Peer) : Peer :=
  { p with
    tcpPromotionConnectionId := 0
    promotion :=
      if p.tcpPromotionConnectionId = 0 then { p.promotion with scheduled := false }
      else p.promotion }

theorem takePromotion_outside (d : Device) (p : Peer) : Outside d p (takePromotion p) := by
  unfold takePromotion
  split <;> simp_all

end WgTcp.Peer
