import WgTcp.Peer.Sections

/-!
# Sections under `tcp_socket_lock`

Publication and release of sockets, and the installation of their callbacks:
dialing and its unwinding, the removal workers, promotion, stop, and the life
of a provisional peer. Every function is one section under `tcp_lock`, run by
the thread that holds `tcp_socket_lock`.
-/

namespace WgTcp.Peer

/-! ## Callback ownership -/

inductive OwnershipError where
  | estale
  | ebusy
  | euclean
  | eshutdown
  | enomem
deriving Repr, DecidableEq

def socketOf (p : Peer) (inbound : Bool) : Option SockId :=
  if inbound then p.links.inboundSocket else p.links.outboundSocket

def removalOf (p : Peer) (inbound : Bool) : Removal :=
  if inbound then p.inboundRemove else p.outboundRemove

def callbacksSet (p : Peer) (inbound : Bool) : Bool :=
  if inbound then p.hooks.inboundSet else p.hooks.outboundSet

def socketData (p : Peer) (inbound : Bool) : Option SockId :=
  if inbound then p.hooks.inboundData else p.hooks.outboundData

def setHooks (p : Peer) (inbound installed : Bool) (wrapper : Option SockId) : Peer :=
  { p with
    hooks :=
      if inbound then { p.hooks with inboundSet := installed, inboundData := wrapper }
      else { p.hooks with outboundSet := installed, outboundData := wrapper } }

/-- `allocated` is the outcome of the wrapper's allocation. -/
def wgSetupTcpSocketCallbacks (allocated : Bool) (d : Device) (p : Peer) (sk : Sock) (s : SockId)
    (inbound : Bool) : Except OwnershipError (Peer × Sock) :=
  if !allocated then .error .enomem
  else if p.socketOf inbound != some s || !p.live d || d.transport != .tcp ||
      (p.removalOf inbound).scheduled then
    .error .eshutdown
  else if p.callbacksSet inbound then
    if p.socketData inbound == some s && sk.userData == some inbound then .ok (p, sk)
    else .error .euclean
  else if (p.socketData inbound).isSome then .error .euclean
  else if sk.userData.isSome then .error .ebusy
  else .ok (p.setHooks inbound true (some s), { sk with userData := some inbound })

def wgResetTcpSocketCallbacks (p : Peer) (sk : Sock) (s : SockId) (inbound : Bool) :
    Except OwnershipError (Peer × Sock) :=
  if p.socketOf inbound != some s then .error .estale
  else if !p.callbacksSet inbound then
    if (p.socketData inbound).isSome || sk.userData.isSome then .error .euclean else .ok (p, sk)
  else if p.socketData inbound != some s then .error .euclean
  else .ok (p.setHooks inbound false none, { sk with userData := none })

def wgResetExactTcpSocketCallbacks (p : Peer) (sk : Sock) (s : SockId) :
    Except OwnershipError (Peer × Sock) :=
  let inboundAlias := p.links.inboundSocket == some s
  let outboundAlias := p.links.outboundSocket == some s
  let inboundOwned := inboundAlias && (p.hooks.inboundSet || p.hooks.inboundData.isSome)
  let outboundOwned := outboundAlias && (p.hooks.outboundSet || p.hooks.outboundData.isSome)
  if !inboundAlias && !outboundAlias then .error .estale
  else if inboundOwned && outboundOwned then .error .euclean
  else if inboundOwned then p.wgResetTcpSocketCallbacks sk s true
  else if outboundOwned then p.wgResetTcpSocketCallbacks sk s false
  else p.wgResetTcpSocketCallbacks sk s (!outboundAlias)

/-- The section of `wg_release_peer_socket_locked`. -/
def releaseSection (p : Peer) (s : SockId) : Except OwnershipError Peer :=
  let inbound := p.links.inboundSocket == some s
  let outbound := p.links.outboundSocket == some s
  let active := p.links.peerSocket == some s
  let inboundConnected := !inbound && p.conn.inbound
  let outboundConnected := !outbound && p.conn.outbound
  if !inbound && !outbound then .error .estale
  else if (inbound && (p.hooks.inboundSet || p.hooks.inboundData.isSome)) ||
      (outbound && (p.hooks.outboundSet || p.hooks.outboundData.isSome)) then
    .error .ebusy
  else
    .ok { p with
      links :=
        { peerSocket := if active then none else p.links.peerSocket
          inboundSocket := if inbound then none else p.links.inboundSocket
          outboundSocket := if outbound then none else p.links.outboundSocket }
      parser := if active then Parser.empty else p.parser
      conn :=
        { p.conn with
          pending := !active && p.conn.pending
          inbound := inboundConnected
          outbound := outboundConnected
          established :=
            !(active || (!inboundConnected && !outboundConnected)) && p.conn.established }
      retry := { p.retry with scheduled := !active && p.retry.scheduled } }

section

variable {d : Device} {p q : Peer} {sk sk' : Sock} {s : SockId} {inbound allocated : Bool}

/-- Callbacks are installed only on the socket of a live peer that is not being removed. -/
theorem wgSetupTcpSocketCallbacks_ok (hlinks : p.links = .on s inbound) (hhooks : p.hooks = .none)
    (h : p.wgSetupTcpSocketCallbacks allocated d sk s inbound = .ok (q, sk')) :
    p.live d = true ∧ (p.removalOf inbound).scheduled = false ∧
      q = { p with hooks := .on s inbound } ∧ sk' = { sk with userData := some inbound } := by
  unfold wgSetupTcpSocketCallbacks at h
  split at h
  · cases h
  split at h
  · cases h
  · cases inbound <;>
      simp_all [socketOf, callbacksSet, socketData, setHooks, Links.on, Hooks.on, Hooks.none] <;>
      grind

/-- With callbacks that are installed on the peer's socket or nowhere, resetting them succeeds. -/
theorem wgResetExactTcpSocketCallbacks_on (hlinks : p.links = .on s inbound)
    (hhooks : p.hooks = .on s inbound ∧ sk.userData = some inbound ∨
      p.hooks = .none ∧ sk.userData = none) :
    p.wgResetExactTcpSocketCallbacks sk s =
      .ok ({ p with hooks := .none }, { sk with userData := none }) := by
  rcases hhooks with ⟨hh, hu⟩ | ⟨hh, hu⟩ <;> cases inbound <;>
    simp [wgResetExactTcpSocketCallbacks, wgResetTcpSocketCallbacks, socketOf, callbacksSet,
      socketData, setHooks, Links.on, Hooks.on, Hooks.none, hlinks, hh, hu]
  all_goals cases p; cases sk; simp_all [Links.on, Hooks.none]

/-- Once the callbacks are reset, releasing the peer's socket succeeds. -/
theorem releaseSection_on (hlinks : p.links = .on s inbound) (hhooks : p.hooks = .none) :
    p.releaseSection s = .ok { p with
      links := .none
      parser := Parser.empty
      conn := ⟨false, false, p.conn.connecting, !inbound && p.conn.inbound,
        inbound && p.conn.outbound⟩
      retry := { p.retry with scheduled := false } } := by
  cases inbound <;> simp [releaseSection, Links.on, Links.none, Hooks.none, hlinks, hhooks]

end

/-- The flags that `wg_tcp_cancel_stream_workers` clears once both workers are gone. -/
def clearStreamFlags (p : Peer) : Peer :=
  { p with
    read := { p.read with scheduled := false }
    write := { p.write with scheduled := false } }

/-- `receiveQueue` is that of the active socket. -/
def wgTcpRearmSurvivingStreamLocked (d : Device) (p : Peer) (receiveQueue : Bytes) : Peer :=
  if !p.streamOpen d || !p.conn.established || p.links.peerSocket.isNone then p
  else
    let q :=
      if !p.read.scheduled && p.streamWq && !receiveQueue.isEmpty then { p with read := .queued }
      else p
    if !p.sendQueue.isEmpty then q.wgTcpScheduleWriteLocked d else q

/-! ## Dialing -/

inductive ConnectGate where
  /-- `wg_tcp_connect` returns zero without dialing. -/
  | done
  /-- It returns an error without dialing. -/
  | refused
  | dial (p : Peer)
deriving Repr, DecidableEq

/-- Up to the claim with `tcp_connecting` and `tcp_pending`. -/
def connectGate (d : Device) (p : Peer) : ConnectGate :=
  if !p.addressing.peerEndpointSet || p.addressing.peerEndpoint == .unspec then .refused
  else if !p.live d || d.transport != .tcp || !d.netifRunning || p.conn.established ||
      p.conn.pending || p.conn.inbound || p.conn.outbound || p.outboundRemove.scheduled then
    .done
  else if p.links.peerSocket.isSome || p.links.outboundSocket.isSome then .refused
  else
    .dial { p with
      conn :=
        { p.conn with connecting := true, pending := true, established := false, outbound := false }
      hooks := { p.hooks with outboundSet := false } }

/-- Publish the new socket before its callbacks are installed. -/
def connectPublish (d : Device) (p : Peer) (s : SockId) : Option Peer :=
  if !p.live d || d.transport != .tcp || !d.netifRunning || !p.conn.connecting ||
      !p.conn.pending || p.links.peerSocket.isSome || p.links.outboundSocket.isSome then
    none
  else some { p with links := { p.links with peerSocket := some s, outboundSocket := some s } }

/-- The last section of a successful `wg_tcp_connect`; the flag asks for the bootstrap. -/
def connectFinish (d : Device) (p : Peer) (s : SockId) (skState : TcpState) :
    Option (Bool × Peer) :=
  if !p.live d || d.transport != .tcp || !d.netifRunning || p.links.peerSocket != some s ||
      p.links.outboundSocket != some s || !skState.dialing then
    none
  else
    let q := { p with conn := { p.conn with connecting := false } }
    let (first, q) :=
      if skState = .established then q.wgTcpPublishOutboundEstablishedLocked s else (false, q)
    some (first,
      if q.tcpReconnectRequested && !q.outboundRemove.scheduled then
        { q with outboundRemove := .claim (some s) }
      else if q.conn.pending && !q.retry.scheduled then { q with retry := .queued }
      else q)

/-- The claim of `wg_tcp_connect_unwind`; the flag is `owns_socket`. -/
def unwindClaim (p : Peer) (s : SockId) : Bool × Peer :=
  if p.links.peerSocket == some s || p.links.outboundSocket == some s then
    (true, { p with outboundRemove := p.outboundRemove.mark (some s) })
  else (false, p)

/-- The disconnected state; the flag asks for a reconnect. -/
def unwindFinish (d : Device) (p : Peer) : Bool × Peer :=
  let again := p.tcpReconnectRequested && !p.tcpStopping && d.tcpCleanupScheduled &&
    d.transport == .tcp
  (again, { p with
    conn :=
      { p.conn with connecting := false, pending := false, established := false, outbound := false }
    outboundRemove :=
      { p.outboundRemove with
        socket := none
        scheduled := again || (p.tcpStopping && p.outboundRemove.scheduled) } })

def unwindAbort (p : Peer) : Peer := { p with conn := { p.conn with connecting := false } }

def unwindQueue (p : Peer) : Peer :=
  if !p.tcpStopping && p.tcpReconnectRequested && p.outboundRemove.scheduled then
    { p with outboundRemove := { p.outboundRemove with work := true } }
  else p

/-- `wg_tcp_bootstrap_worker`: the socket to greet. -/
def takeBootstrap (p : Peer) : Peer := { p with tcpBootstrapSocket := none }

/-! ## Removal workers -/

/-- What a removal worker finds when it has the lock. -/
structure RemovalView where
  socket : Option SockId
  /-- `clean_claim`: the claim is on the current socket of its direction. -/
  clean : Bool
  active : Bool
deriving Repr, DecidableEq

def removalView (p : Peer) (inbound : Bool) : RemovalView :=
  let socket := (p.removalOf inbound).socket
  let clean := p.socketOf inbound == socket
  ⟨socket, clean, clean && socket.isSome && p.links.peerSocket == socket⟩

def outboundRemoveBegin (p : Peer) : Peer :=
  { p with retry := { p.retry with scheduled := false } }

def outboundRemoveFinish (p : Peer) (detachFailed : Bool) : Peer :=
  if detachFailed then p
  else { p with tcpReconnectRequested := false, outboundRemove := p.outboundRemove.clear }

def inboundRemoveFinish (p : Peer) (detachFailed : Bool) : Peer :=
  if detachFailed then p else { p with inboundRemove := p.inboundRemove.clear }

/-! ## Promotion -/

/-- The generation check of a promotion, under `endpoint_lock`. -/
def promoteGeneration (p : Peer) (connectionId : Nat) : Option Peer :=
  if connectionId < p.addressing.tcpRoamingConnectionId then none
  else
    some { p with addressing := { p.addressing with tcpRoamingConnectionId := connectionId } }

/-- Claim whatever the configured peer still owns. -/
def promoteClaim (p : Peer) : Peer :=
  { p with
    inboundRemove :=
      { p.inboundRemove with
        scheduled := p.links.inboundSocket.isSome, socket := p.links.inboundSocket }
    outboundRemove :=
      { p.outboundRemove with
        scheduled := p.links.outboundSocket.isSome, socket := p.links.outboundSocket } }

/-- The configured peer takes the accepted socket over. -/
def promotePublish (p : Peer) (s : SockId) : Peer :=
  { p with
    links := { p.links with peerSocket := some s, inboundSocket := some s }
    conn := ⟨true, false, false, true, false⟩
    inboundRemove := p.inboundRemove.clear
    outboundRemove := p.outboundRemove.clear
    tcpReconnectRequested := false }

/-- The rollback of a failed installation, before the socket is released. -/
def promoteForget (p : Peer) : Peer := p.setHooks true false none

/-! ## Stop and start -/

def stopReclaim (p : Peer) : Peer :=
  { p with
    outboundRemove := p.outboundRemove.mark p.links.outboundSocket
    inboundRemove := p.inboundRemove.mark p.links.inboundSocket }

def stopClaim (p : Peer) : Peer :=
  { p.stopReclaim with tcpStopping := true, tcpReconnectRequested := false }

def stopClear (p : Peer) : Peer :=
  { p.clearStreamFlags with retry := { p.retry with scheduled := false } }

def purgeSendQueue (p : Peer) : Peer := { p with sendQueue := [] }

def stopFinish (p : Peer) (failed : Bool) : Peer :=
  if failed then { p with tcpTeardownQuarantined := true }
  else
    { p with
      conn := .none
      tcpReconnectRequested := false
      outboundRemove := p.outboundRemove.clear
      inboundRemove := p.inboundRemove.clear }

/-- The part of `wg_open` for one peer. -/
def wgOpen (p : Peer) : Peer :=
  if p.tcpTeardownQuarantined then p
  else
    { p with
      tcpStopping := false
      retry :=
        if p.addressing.peerEndpointSet && !p.retry.scheduled && !p.outboundRemove.scheduled then
          .queued
        else p.retry }

/-- `peer_make_dead`, which follows the stop when a peer is removed. -/
def peerMakeDead (p : Peer) : Peer :=
  { p with
    isDead := true
    tcpStopping := true
    tcpReconnectRequested := false
    outboundRemove := .none
    inboundRemove := .none
    retry := .idle
    streamWq := false
    read := if p.read.scheduled then .idle else p.read
    write := if p.write.scheduled then .idle else p.write
    parser := { p.parser with partialSkb := none } }

/-! ## Provisional peers -/

/-- The listener gives an accepted socket to a new provisional peer. -/
def install (p : Peer) (s : SockId) : Peer :=
  { p with
    links := { p.links with peerSocket := some s, inboundSocket := some s }
    conn := { p.conn with established := true, inbound := true }
    hooks := { p.hooks with inboundSet := false } }

/-- `wg_finish_tcp_connection_init`: a connection that is already over is not kept. -/
def finishInit (p : Peer) (skState : TcpState) : Peer :=
  if skState != .established || p.isDead then { p with isDead := true } else p

def destroyClaim (p : Peer) : Peer := { p.stopReclaim with isDead := true, tcpStopping := true }

/-- The socket is taken away from the provisional peer by a promotion. -/
def handoverClaim (p : Peer) (s : SockId) : Option Peer :=
  if p.links.inboundSocket != some s || p.links.peerSocket != some s then none
  else
    some { p with
      isDead := true, tcpStopping := true, inboundRemove := p.inboundRemove.mark (some s) }

def handoverDetach (p : Peer) : Peer :=
  { p with
    links := { p.links with peerSocket := none, inboundSocket := none }
    conn := { p.conn with inbound := false, established := false }
    inboundRemove := p.inboundRemove.clear }

end WgTcp.Peer
