import WgTcp.Netlink.Attr

/-!
# The containers of the tools

`struct wgdevice` with its peers and their allowed IPs, as the tools build them
from a dump or from a configuration file. A linked list is a list; of the
pointers to its end only whether they are null matters.
-/

namespace WgTcp

namespace Tools

open Netlink

structure Wgallowedip where
  family : BitVec 16
  /-- The bytes of the union of `ip4` and `ip6`. -/
  ip : Fin 16 → BitVec 8
  cidr : BitVec 8
  flags : BitVec 32
deriving DecidableEq

structure Wgpeer where
  removeMe : Bool
  replaceAllowedips : Bool
  hasPublicKey : Bool
  hasPresharedKey : Bool
  hasPersistentKeepaliveInterval : Bool
  publicKey : Key
  presharedKey : Key
  /-- `none` when the family is `AF_UNSPEC`. -/
  endpoint : Option SockAddr
  lastHandshakeTime : Timespec
  rxBytes : BitVec 64
  txBytes : BitVec 64
  persistentKeepaliveInterval : UInt16
  allowedips : List Wgallowedip
  /-- The pointer to the last allowed IP is not null. -/
  lastAllowedip : Bool
deriving DecidableEq

structure Wgdevice where
  name : List (BitVec 8)
  ifindex : BitVec 32
  replacePeers : Bool
  hasPrivateKey : Bool
  hasPublicKey : Bool
  hasListenPort : Bool
  hasFwmark : Bool
  hasTransport : Bool
  publicKey : Key
  privateKey : Key
  fwmark : BitVec 32
  listenPort : UInt16
  transport : BitVec 8
  peers : List Wgpeer
deriving DecidableEq

/-! What `calloc` returns. -/

def Wgallowedip.zero : Wgallowedip := ⟨0, fun _ => 0, 0, 0⟩

def Wgpeer.zero : Wgpeer :=
  ⟨false, false, false, false, false, 0, 0, none, ⟨0, 0⟩, 0, 0, 0, [], false⟩

def Wgdevice.zero : Wgdevice :=
  ⟨[], 0, false, false, false, false, false, false, 0, 0, 0, 0, 0, []⟩

end Tools

end WgTcp
