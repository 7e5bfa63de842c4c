import WgTcp.AllowedIps.Table
import WgTcp.Peer.Endpoint

/-!
# Netlink attributes

The attributes of the generic netlink messages with which a device is configured
and dumped, as typed trees: a nested attribute holds the attributes inside it.
The payload of an attribute has the length of its type, so that only the sizes
are left of the wire format; they decide what fits into a buffer.
-/

namespace WgTcp

namespace Netlink

open AllowedIps

abbrev Key := BitVec 256

/-- A `sockaddr_in` or a `sockaddr_in6`. -/
inductive SockAddr where
  | inet (port : UInt16) (addr : BitVec 32)
  | inet6 (port : UInt16) (addr : BitVec 128) (scopeId : Nat)
deriving Repr, DecidableEq

/-- The test `ipv6_addr_type(addr) & IPV6_ADDR_LINKLOCAL`: the unicast range `fe80::/10` and
multicast of link-local scope. -/
def ipv6LinkLocal (addr : BitVec 128) : Bool :=
  addr.extractLsb' 118 10 == 0x3fa ||
    (addr.extractLsb' 120 8 == 0xff && addr.extractLsb' 112 4 == 2)

/-- `struct __kernel_timespec`. -/
structure Timespec where
  sec : BitVec 64
  nsec : BitVec 64
deriving Repr, DecidableEq

/-- `AF_INET` and `AF_INET6`. -/
def af : Family → BitVec 16
  | .inet => 2
  | .inet6 => 10

/-- `WG_TRANSPORT_UDP` and `WG_TRANSPORT_TCP`. -/
def transportByte : Transport → BitVec 8
  | .udp => 0
  | .tcp => 1

inductive AllowedIpAttr where
  | family (family : BitVec 16)
  | ipaddr (ip : List (BitVec 8))
  | cidrMask (cidr : BitVec 8)
  | flags (flags : BitVec 32)
deriving Repr, DecidableEq

inductive PeerAttr where
  | publicKey (key : Key)
  | presharedKey (key : Key)
  | flags (flags : BitVec 32)
  | endpoint (addr : SockAddr)
  | persistentKeepaliveInterval (interval : UInt16)
  | lastHandshakeTime (time : Timespec)
  | rxBytes (bytes : BitVec 64)
  | txBytes (bytes : BitVec 64)
  | allowedips (nests : List (List AllowedIpAttr))
  | protocolVersion (version : BitVec 32)
deriving Repr, DecidableEq

inductive DeviceAttr where
  | ifindex (ifindex : BitVec 32)
  | ifname (name : List (BitVec 8))
  | privateKey (key : Key)
  | publicKey (key : Key)
  | flags (flags : BitVec 32)
  | listenPort (port : UInt16)
  | fwmark (mark : BitVec 32)
  | transport (transport : BitVec 8)
  | peers (nests : List (List PeerAttr))
deriving Repr, DecidableEq

/-- The attributes of one `WG_CMD_GET_DEVICE` or `WG_CMD_SET_DEVICE` message. -/
abbrev Message := List DeviceAttr

/-! ## Sizes -/

def nlaHdrlen : Nat := 4

/-- The netlink and the generic netlink header. -/
def msgHdrlen : Nat := 16 + 4

def nlaTotalSize (payload : Nat) : Nat := (nlaHdrlen + payload + 3) / 4 * 4

def AllowedIpAttr.size : AllowedIpAttr → Nat
  | .family _ => nlaTotalSize 2
  | .ipaddr ip => nlaTotalSize ip.length
  | .cidrMask _ => nlaTotalSize 1
  | .flags _ => nlaTotalSize 4

/-- The size of a nested attribute with the given sizes inside. -/
def nestSize (sizes : List Nat) : Nat := nlaHdrlen + sizes.sum

def allowedIpSize (attrs : List AllowedIpAttr) : Nat := nestSize (attrs.map AllowedIpAttr.size)

def SockAddr.size : SockAddr → Nat
  | .inet _ _ => 16
  | .inet6 _ _ _ => 28

def PeerAttr.size : PeerAttr → Nat
  | .publicKey _ => nlaTotalSize 32
  | .presharedKey _ => nlaTotalSize 32
  | .flags _ => nlaTotalSize 4
  | .endpoint addr => nlaTotalSize addr.size
  | .persistentKeepaliveInterval _ => nlaTotalSize 2
  | .lastHandshakeTime _ => nlaTotalSize 16
  | .rxBytes _ => nlaTotalSize 8
  | .txBytes _ => nlaTotalSize 8
  | .allowedips nests => nestSize (nests.map allowedIpSize)
  | .protocolVersion _ => nlaTotalSize 4

def peerSize (attrs : List PeerAttr) : Nat := nestSize (attrs.map PeerAttr.size)

def DeviceAttr.size : DeviceAttr → Nat
  | .ifindex _ => nlaTotalSize 4
  | .ifname name => nlaTotalSize (name.length + 1)
  | .privateKey _ => nlaTotalSize 32
  | .publicKey _ => nlaTotalSize 32
  | .flags _ => nlaTotalSize 4
  | .listenPort _ => nlaTotalSize 2
  | .fwmark _ => nlaTotalSize 4
  | .transport _ => nlaTotalSize 1
  | .peers nests => nestSize (nests.map peerSize)

def messageSize (msg : Message) : Nat := msgHdrlen + (msg.map DeviceAttr.size).sum

theorem peerSize_append_allowedips (attrs : List PeerAttr) (nests : List (List AllowedIpAttr)) :
    peerSize (attrs ++ [.allowedips nests]) =
      peerSize attrs + nlaHdrlen + (nests.map allowedIpSize).sum := by
  simp [peerSize, nestSize, PeerAttr.size, Nat.add_assoc]

theorem messageSize_append_peers (attrs : Message) (nests : List (List PeerAttr)) :
    messageSize (attrs ++ [.peers nests]) =
      messageSize attrs + nlaHdrlen + (nests.map peerSize).sum := by
  simp [messageSize, nestSize, DeviceAttr.size, Nat.add_assoc]

/-! ## Buffers -/

/-- A buffer of which `used` bytes are written takes `size` more, if they fit. -/
def put (capacity size used : Nat) : Option Nat :=
  if used + size ≤ capacity then some (used + size) else none

/-- Attributes put one after the other, until one does not fit. -/
def putAll (capacity : Nat) (sizes : List Nat) (used : Nat) : Option Nat :=
  sizes.foldlM (fun used size => put capacity size used) used

theorem eq_of_put_eq_some {capacity size used u : Nat} (h : put capacity size used = some u) :
    u = used + size := by
  rw [put] at h
  split at h
  · exact (Option.some.inj h).symm
  · cases h

theorem putAll_eq_some_of_le {capacity used : Nat} {sizes : List Nat}
    (h : used + sizes.sum ≤ capacity) : putAll capacity sizes used = some (used + sizes.sum) := by
  induction sizes generalizing used with
  | nil => rfl
  | cons size rest ih =>
    rw [List.sum_cons] at h ⊢
    rw [putAll, List.foldlM_cons, put, if_pos (by omega)]
    exact (ih (by omega)).trans (by rw [Nat.add_assoc])

theorem eq_of_putAll_eq_some {capacity used u : Nat} {sizes : List Nat}
    (h : putAll capacity sizes used = some u) : u = used + sizes.sum := by
  induction sizes generalizing used with
  | nil => exact (Option.some.inj h).symm
  | cons size rest ih =>
    rw [putAll, List.foldlM_cons] at h
    obtain ⟨u', hhead, hrest⟩ := Option.bind_eq_some_iff.mp h
    rw [ih hrest, eq_of_put_eq_some hhead, List.sum_cons, Nat.add_assoc]

end Netlink

end WgTcp
