import Mathlib

/-!
# Endpoints and dial targets

The addressing fields of a peer, all under its `endpoint_lock`: the tuple it
was last heard from, the endpoint the operator configured, and the target of
the next dial. `wg_socket_set_peer_endpoint_internal` and the address half of
`wg_socket_set_peer_endpoint_authenticated` are functions on these fields.
-/

namespace WgTcp

inductive Transport where
  | udp
  | tcp
deriving Repr, DecidableEq

/-- `struct endpoint`: remote address and port, then the local address to answer from. -/
inductive Endpoint where
  | unspec
  | inet (port : UInt16) (addr : BitVec 32) (src : BitVec 32) (srcIf : Nat)
  | inet6 (port : UInt16) (addr : BitVec 128) (scopeId : Nat) (src : BitVec 128)
deriving Repr, DecidableEq

namespace Endpoint

def endpointEq : Endpoint → Endpoint → Bool
  | .inet port addr src srcIf, .inet port' addr' src' srcIf' =>
      port == port' && addr == addr' && src == src' && srcIf == srcIf'
  | .inet6 port addr scopeId src, .inet6 port' addr' scopeId' src' =>
      port == port' && addr == addr' && scopeId == scopeId' && src == src'
  | .unspec, .unspec => true
  | _, _ => false

/-- The local half of a tuple does not matter to where a connection is opened. -/
def wgTcpDialTargetEq : Endpoint → Endpoint → Bool
  | .inet port addr _ _, .inet port' addr' _ _ => port == port' && addr == addr'
  | .inet6 port addr scopeId _, .inet6 port' addr' scopeId' _ =>
      port == port' && addr == addr' && scopeId == scopeId'
  | _, _ => false

def port : Endpoint → UInt16
  | .unspec => 0
  | .inet port _ _ _ => port
  | .inet6 port _ _ _ => port

/-- The remote address with the configured port and no local half: what may be dialed. -/
def dialTarget (listenPort : UInt16) : Endpoint → Option Endpoint
  | .unspec => none
  | .inet _ addr _ _ => some (.inet listenPort addr 0 0)
  | .inet6 _ addr scopeId _ => some (.inet6 listenPort addr scopeId 0)

end Endpoint

structure Addressing where
  endpoint : Endpoint
  tcpReplyEndpoint : Endpoint
  /-- The target of the next dial. -/
  peerEndpoint : Endpoint
  peerEndpointSet : Bool
  tcpPeerListenPort : UInt16
  /-- Newest authenticated accepted carrier. -/
  tcpRoamingConnectionId : Nat
deriving Repr, DecidableEq

def Addressing.unset : Addressing := ⟨.unspec, .unspec, .unspec, false, 0, 0⟩

/-- What a new endpoint asks of the carrier. -/
inductive EndpointEffect where
  | keep
  | requestReconnect
  | connect
deriving Repr, DecidableEq

/-- The fields written under `endpoint_lock`. -/
def Addressing.store (a : Addressing) (transport : Transport) (ep : Endpoint)
    (configured : Bool) : Addressing :=
  let a := { a with endpoint := ep }
  if transport != .tcp then a
  else
    let a := { a with tcpReplyEndpoint := ep }
    if configured then
      { a with peerEndpoint := ep, tcpPeerListenPort := ep.port, peerEndpointSet := true }
    else a

/-- `up` is `netif_running`, `established` is `tcp_established`. -/
def wgSocketSetPeerEndpointInternal (transport : Transport) (up established : Bool)
    (a : Addressing) (ep : Endpoint) (configured : Bool) : Addressing × EndpointEffect :=
  if ep.endpointEq a.endpoint &&
      (!configured || transport != .tcp || (a.peerEndpointSet && ep.endpointEq a.peerEndpoint)) then
    (a, .keep)
  else if ep == .unspec then (a, .keep)
  else
    let targetChanged := a.peerEndpointSet && !a.peerEndpoint.endpointEq ep
    (a.store transport ep configured,
      if transport != .tcp || !configured then .keep
      else if targetChanged then .requestReconnect
      else if up && !established then .connect
      else .keep)

/-- `wg_socket_set_peer_endpoint`: an observed endpoint. -/
def wgSocketSetPeerEndpoint (transport : Transport) (a : Addressing) (ep : Endpoint) :
    Addressing :=
  (wgSocketSetPeerEndpointInternal transport false false a ep false).1

/-- The generation check and the new dial target of an authenticated observation; the flag is
`target_changed`. -/
def learnDialTarget (a : Addressing) (ep : Endpoint) (connectionId : Nat) : Addressing × Bool :=
  if !a.peerEndpointSet || connectionId == 0 ||
      decide (connectionId < a.tcpRoamingConnectionId) then
    (a, false)
  else
    match ep.dialTarget a.tcpPeerListenPort with
    | none => (a, false)
    | some target =>
        let a := { a with tcpRoamingConnectionId := connectionId }
        if a.peerEndpoint.wgTcpDialTargetEq target then (a, false)
        else ({ a with peerEndpoint := target }, true)

theorem setPeerEndpoint_set (transport : Transport) (up established : Bool) (a : Addressing)
    (ep : Endpoint) (configured : Bool) (h : a.peerEndpointSet = true) :
    (wgSocketSetPeerEndpointInternal transport up established a ep
      configured).1.peerEndpointSet = true := by
  unfold wgSocketSetPeerEndpointInternal Addressing.store
  repeat' split
  all_goals first | exact h | rfl

theorem learnDialTarget_set (a : Addressing) (ep : Endpoint) (connectionId : Nat)
    (h : a.peerEndpointSet = true) :
    (learnDialTarget a ep connectionId).1.peerEndpointSet = true := by
  unfold learnDialTarget
  split
  · exact h
  split
  · exact h
  · dsimp only
    split <;> exact h

/-- An observed endpoint never changes where the peer is dialed. -/
theorem wgSocketSetPeerEndpoint_dial (transport : Transport) (a : Addressing) (ep : Endpoint) :
    (wgSocketSetPeerEndpoint transport a ep).peerEndpoint = a.peerEndpoint ∧
      (wgSocketSetPeerEndpoint transport a ep).peerEndpointSet = a.peerEndpointSet ∧
      (wgSocketSetPeerEndpoint transport a ep).tcpPeerListenPort = a.tcpPeerListenPort ∧
      (wgSocketSetPeerEndpoint transport a ep).tcpRoamingConnectionId =
        a.tcpRoamingConnectionId := by
  simp only [wgSocketSetPeerEndpoint, wgSocketSetPeerEndpointInternal]
  split
  · exact ⟨rfl, rfl, rfl, rfl⟩
  split
  · exact ⟨rfl, rfl, rfl, rfl⟩
  · cases transport <;> exact ⟨rfl, rfl, rfl, rfl⟩

end WgTcp
