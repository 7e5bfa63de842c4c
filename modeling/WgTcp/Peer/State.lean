import WgTcp.Peer.Endpoint
import WgTcp.Stream.Reader

/-!
# A peer and its sockets

The TCP fields of `struct wg_peer`, grouped by what they are about, those of the
device they are checked against, and those of the sockets a peer may own. A
work item is represented by its pending bit, next to the flag with which the
source remembers that it was queued. Sockets are named by the order of their
creation, so that no name is used twice.

`Peer.streamOpen` is the test that every section makes before it queues stream
work or hands a socket to a worker.
-/

namespace WgTcp

abbrev SockId := Nat

inductive TcpState where
  | established
  | synSent
  | synRecv
  | finWait1
  | finWait2
  | timeWait
  | close
  | closeWait
  | lastAck
  | listen
  | closing
  | newSynRecv
deriving Repr, DecidableEq

/-- The states that `wg_tcp_state_change` treats as failed or closed. -/
def TcpState.closed : TcpState → Bool
  | .close | .closeWait | .closing | .finWait1 | .finWait2 | .lastAck => true
  | _ => false

/-- The states in which a connect attempt is still good. -/
def TcpState.dialing : TcpState → Bool
  | .synSent | .synRecv | .established => true
  | _ => false

/-- What `wg_tcp_state_change` has to do once its state section is through: cancel the retry,
queue the bootstrap, queue the removal. -/
structure StateTail where
  cancelRetry : Bool
  bootstrap : Bool
  removal : Bool
deriving Repr, DecidableEq

def StateTail.nothing : StateTail := ⟨false, false, false⟩

/-- A call of one of the three socket callbacks: due, or as far as it has come. While a callback
is under way it holds `sk_callback_lock` for reading. -/
inductive Callback where
  | dataReady
  | writeSpace
  /-- The writer has been scheduled; `original_write_space` is next. -/
  | writeSpaceTail
  | stateChange
  /-- The removal flags have been checked. -/
  | stateEntered
  /-- The state section is done; what it asked for is still to be queued. -/
  | stateTail (tail : StateTail)
deriving Repr, DecidableEq

def Callback.running : Callback → Bool
  | .dataReady | .writeSpace | .stateChange => false
  | .writeSpaceTail | .stateEntered | .stateTail _ => true

/-- How far a socket has come on its way to the peer. -/
inductive Stage where
  | unused
  /-- Accepted by the listener; the connection id of its list entry. -/
  | provisional (connectionId : Nat)
  /-- Created by a connect that has not published it. -/
  | dialing
  /-- Claimed by a promotion that has not published it. -/
  | promoting
  /-- Published on the peer, now or earlier. -/
  | owned
deriving Repr, DecidableEq

structure Sock where
  stage : Stage
  skState : TcpState
  receiveQueue : Bytes
  /-- `sk_stream_is_writeable`. -/
  writeable : Bool
  /-- `SOCK_NOSPACE`. -/
  nospace : Bool
  /-- The peer's wrapper in `sk_user_data`, by its `inbound` field, with the callbacks set. -/
  userData : Option Bool
  callback : Option Callback
  /-- Bytes that `kernel_sendmsg` has taken. -/
  wire : Bytes
  /-- Frames that were accepted for the peer while this was its active socket. -/
  accepted : List Bytes
  /-- A send returned zero or a hard error. -/
  sendFailed : Bool
  /-- Bytes that `kernel_recvmsg` has returned. -/
  received : Bytes
  /-- A read returned zero or an error other than `EAGAIN`. -/
  recvEnded : Bool
deriving Repr, DecidableEq

def Sock.unused : Sock :=
  ⟨.unused, .close, [], true, false, none, none, [], [], false, [], false⟩

def Sock.callbackRunning (sk : Sock) : Bool := sk.callback.any Callback.running

structure Device where
  transport : Transport
  /-- `tcp_cleanup_scheduled`: the device is up. -/
  tcpCleanupScheduled : Bool
  netifRunning : Bool
deriving Repr, DecidableEq

/-- The sockets of a peer; written only under `tcp_socket_lock`. -/
structure Links where
  peerSocket : Option SockId
  inboundSocket : Option SockId
  outboundSocket : Option SockId
deriving Repr, DecidableEq

def Links.none : Links := ⟨Option.none, Option.none, Option.none⟩

/-- The one socket of a peer, with its direction. -/
def Links.on (s : SockId) (inbound : Bool) : Links :=
  ⟨some s, if inbound then some s else Option.none, if inbound then Option.none else some s⟩

/-- `tcp_inbound_callbacks_set`, `tcp_inbound_socket_data` and their outbound counterparts; a
wrapper is represented by the socket it was made for. -/
structure Hooks where
  inboundSet : Bool
  outboundSet : Bool
  inboundData : Option SockId
  outboundData : Option SockId
deriving Repr, DecidableEq

def Hooks.none : Hooks := ⟨false, false, Option.none, Option.none⟩

def Hooks.on (s : SockId) (inbound : Bool) : Hooks :=
  ⟨inbound, !inbound, if inbound then some s else Option.none,
    if inbound then Option.none else some s⟩

/-- `tcp_established`, `tcp_pending`, `tcp_connecting`, `inbound_connected`,
`outbound_connected`. -/
structure Connection where
  established : Bool
  pending : Bool
  connecting : Bool
  inbound : Bool
  outbound : Bool
deriving Repr, DecidableEq

def Connection.none : Connection := ⟨false, false, false, false, false⟩

/-- A peer with neither direction connected is not established. -/
def Connection.settle (c : Connection) : Connection :=
  if !c.inbound && !c.outbound then { c with established := false } else c

/-- The removal of one direction: `tcp_*_remove_scheduled`, `tcp_*_remove_socket` and the pending
bit of `tcp_*_remove_work`. -/
structure Removal where
  scheduled : Bool
  socket : Option SockId
  work : Bool
deriving Repr, DecidableEq

def Removal.none : Removal := ⟨false, Option.none, false⟩

/-- Claim the removal of a socket without queueing the work. -/
def Removal.mark (r : Removal) (s : Option SockId) : Removal :=
  { r with scheduled := true, socket := s }

/-- Claim the removal of a socket and queue the work. -/
def Removal.claim (s : Option SockId) : Removal := ⟨true, s, true⟩

/-- Give a claim up; work that was queued for it stays queued. -/
def Removal.clear (r : Removal) : Removal := { r with scheduled := false, socket := Option.none }

/-- A claim is kept, or made where there was none, on the current socket. -/
def Removal.Grows (r r' : Removal) (current : Option SockId) : Prop :=
  (r'.scheduled = r.scheduled ∧ r'.socket = r.socket) ∨
    (r.scheduled = false ∧ r'.scheduled = true ∧ r'.socket = current)

theorem Removal.Grows.scheduled {r r' : Removal} {current : Option SockId}
    (h : r.Grows r' current) (hr : r.scheduled = true) : r'.scheduled = true := by
  rcases h with ⟨h, _⟩ | ⟨_, h, _⟩
  · rw [h, hr]
  · exact h

theorem Removal.Grows.claim {r r' : Removal} {current : Option SockId} (h : r.Grows r' current)
    (hr : r.socket.isSome → r.scheduled = true) (hs : r'.socket.isSome) : r'.scheduled = true := by
  rcases h with ⟨h, h'⟩ | ⟨_, h, _⟩
  · rw [h]
    exact hr (h' ▸ hs)
  · exact h

theorem Removal.Grows.claims {r r' : Removal} {current : Option SockId} (h : r.Grows r' current)
    (hs : r'.scheduled = true) :
    (r.scheduled = true ∧ r'.socket = r.socket) ∨ r'.socket = current := by
  rcases h with ⟨h₁, h₂⟩ | ⟨_, _, h₃⟩
  · exact .inl ⟨h₁ ▸ hs, h₂⟩
  · exact .inr h₃

theorem Removal.Grows.trans {r r' r'' : Removal} {current : Option SockId}
    (h : r.Grows r' current) (h' : r'.Grows r'' current) : r.Grows r'' current := by
  rcases h with ⟨h₁, h₂⟩ | ⟨h₁, h₂, h₃⟩ <;> rcases h' with ⟨h₁', h₂'⟩ | ⟨h₁', h₂', h₃'⟩
  · exact .inl ⟨h₁'.trans h₁, h₂'.trans h₂⟩
  · exact .inr ⟨h₁ ▸ h₁', h₂', h₃'⟩
  · exact .inr ⟨h₁, h₁'.trans h₂, h₂'.trans h₃⟩
  · exact .inr ⟨h₁, h₂', h₃'⟩

/-- A work item with the flag that says it was queued. -/
structure WorkItem where
  scheduled : Bool
  work : Bool
deriving Repr, DecidableEq

def WorkItem.idle : WorkItem := ⟨false, false⟩

def WorkItem.queued : WorkItem := ⟨true, true⟩

structure Peer where
  tempPeer : Bool
  isDead : Bool
  tcpStopping : Bool
  tcpTeardownQuarantined : Bool
  addressing : Addressing
  links : Links
  hooks : Hooks
  conn : Connection
  /-- `tcp_retry_scheduled`, `tcp_retry_work`. -/
  retry : WorkItem
  outboundRemove : Removal
  inboundRemove : Removal
  tcpReconnectRequested : Bool
  /-- The workqueues `tcp_read_wq` and `tcp_write_wq` exist. -/
  streamWq : Bool
  /-- `tcp_read_worker_scheduled`, `tcp_read_work`. -/
  read : WorkItem
  /-- `tcp_write_worker_scheduled`, `tcp_write_work`. -/
  write : WorkItem
  tcpBootstrapSocket : Option SockId
  tcpBootstrapWork : Bool
  tcpPromotionConnectionId : Nat
  /-- `tcp_promotion_worker_scheduled`, `tcp_promotion_work`. -/
  promotion : WorkItem
  sendQueue : List Bytes
  parser : Parser
deriving Repr, DecidableEq

/-- A peer without a carrier: `wg_peer_create` on a TCP device, or `wg_temp_peer_create`. -/
def Peer.create (tempPeer : Bool) (addressing : Addressing) : Peer where
  tempPeer := tempPeer
  isDead := false
  tcpStopping := false
  tcpTeardownQuarantined := false
  addressing := addressing
  links := .none
  hooks := .none
  conn := .none
  retry := .idle
  outboundRemove := .none
  inboundRemove := .none
  tcpReconnectRequested := false
  streamWq := true
  read := .idle
  write := .idle
  tcpBootstrapSocket := none
  tcpBootstrapWork := false
  tcpPromotionConnectionId := 0
  promotion := .idle
  sendQueue := []
  parser := Parser.empty

namespace Peer

/-- Neither dead nor stopping, on a device that is up. -/
def live (d : Device) (p : Peer) : Bool :=
  !p.isDead && !p.tcpStopping && d.tcpCleanupScheduled

/-- No removal of either direction is claimed, on a live peer. -/
def streamOpen (d : Device) (p : Peer) : Bool :=
  p.live d && !p.outboundRemove.scheduled && !p.inboundRemove.scheduled

/-- Something that stays closed until a removal, a stop or a promotion is through. -/
def Closed (p : Peer) : Prop :=
  p.isDead = true ∨ p.tcpStopping = true ∨
    p.outboundRemove.scheduled = true ∨ p.inboundRemove.scheduled = true

theorem Closed.streamOpen {p : Peer} (h : p.Closed) (d : Device) : p.streamOpen d = false := by
  rcases h with h | h | h | h <;> simp [Peer.streamOpen, live, h]

/-- A removal claim that names the peer's current socket of that direction. -/
structure ClaimedOutbound (p : Peer) (s : SockId) : Prop where
  scheduled : p.outboundRemove.scheduled = true
  socket : p.outboundRemove.socket = some s
  owned : p.links.outboundSocket = some s

structure ClaimedInbound (p : Peer) (s : SockId) : Prop where
  scheduled : p.inboundRemove.scheduled = true
  socket : p.inboundRemove.socket = some s
  owned : p.links.inboundSocket = some s

/-- The peer is done with a socket: it is not its active one, or it is claimed for removal by
name, or a stop or the death of the peer is going to remove it. -/
def Retired (p : Peer) (s : SockId) : Prop :=
  p.links.peerSocket ≠ some s ∨ p.isDead = true ∨ p.tcpStopping = true ∨
    p.ClaimedOutbound s ∨ p.ClaimedInbound s

end Peer

end WgTcp
