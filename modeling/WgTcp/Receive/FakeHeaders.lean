import WgTcp.Netlink.Attr
import WgTcp.Receive.Dispatch
import WgTcp.Stream.Segmentation

/-!
# Synthetic network headers

The receive path of WireGuard expects a datagram. `wg_tcp_build_fake_headers`
puts an IP and a UDP header in front of a record, with the addresses of the
carrier the record came over, and `wg_socket_endpoint_from_skb` reads them back.
The tuple of a dialed carrier is taken from its socket; an accepted carrier has
it stored with its peer, and promotion copies it to the configured peer.
-/

namespace WgTcp

open Netlink (SockAddr ipv6LinkLocal)

/-! ## Carriers -/

/-- The local and the remote half of a connected TCP socket. -/
inductive SockTuple where
  | inet (sport : UInt16) (saddr : BitVec 32) (dport : UInt16) (daddr : BitVec 32)
  | inet6 (sport : UInt16) (saddr : BitVec 128) (dport : UInt16) (daddr : BitVec 128)
deriving Repr, DecidableEq

/-- The address range `ff00::/8`. -/
def ipv6Multicast (addr : BitVec 128) : Bool := addr.extractLsb' 120 8 == 0xff

/-- The interface of an address that needs one: link-local, or multicast of node-local scope. -/
def ipv6IfaceScopeId (addr : BitVec 128) (iface : Nat) : Nat :=
  if ipv6LinkLocal addr || (ipv6Multicast addr && addr.extractLsb' 112 4 == 1) then iface else 0

/-- A connected TCP socket. Its remote end is one host, and an address with a scope comes with
the interface the socket is bound to. -/
structure CarrierSock where
  tuple : SockTuple
  /-- `sk_bound_dev_if`. -/
  boundDevIf : Nat
  unicast : ∀ sport saddr dport daddr, tuple = .inet6 sport saddr dport daddr →
    ipv6Multicast daddr = false

namespace CarrierSock

variable (sk : CarrierSock)

def kernelGetsockname : SockAddr :=
  match sk.tuple with
  | .inet sport saddr _ _ => .inet sport saddr
  | .inet6 sport saddr _ _ => .inet6 sport saddr (ipv6IfaceScopeId saddr sk.boundDevIf)

def kernelGetpeername : SockAddr :=
  match sk.tuple with
  | .inet _ _ dport daddr => .inet dport daddr
  | .inet6 _ _ dport daddr => .inet6 dport daddr (ipv6IfaceScopeId daddr sk.boundDevIf)

/-- The remote end, answered from the local address, in the scope of the carrier. -/
def endpoint : Endpoint :=
  match sk.tuple with
  | .inet _ saddr dport daddr => .inet dport daddr saddr 0
  | .inet6 _ saddr dport daddr =>
      .inet6 dport daddr (if ipv6LinkLocal daddr then sk.boundDevIf else 0) saddr

end CarrierSock

/-- What a peer stores of its accepted carrier; an unset address is zeroed memory. -/
structure InboundTuple where
  inboundSocket : Option Nat
  inboundSource : Option SockAddr
  inboundDest : Option SockAddr

/-- The provisional peer of an accepted socket, after `copy_sock_addresses`. -/
def InboundTuple.accepted (socket : Nat) (sk : CarrierSock) : InboundTuple :=
  ⟨some socket, some sk.kernelGetsockname, some sk.kernelGetpeername⟩

/-- The transfer of `wg_tcp_promote_authenticated_carrier` to the configured peer. -/
def InboundTuple.promote (peer temp : InboundTuple) (socket : Nat) : InboundTuple :=
  { peer with
    inboundSource := temp.inboundSource
    inboundDest := temp.inboundDest
    inboundSocket := some socket }

/-- The peer that reads from a socket, in the three ways it can have come to it. -/
inductive Established (sk : CarrierSock) (socket : Nat) : InboundTuple → Prop
  | dialed (peer : InboundTuple) (h : peer.inboundSocket ≠ some socket) : Established sk socket peer
  | accepted : Established sk socket (.accepted socket sk)
  | promoted (peer : InboundTuple) :
      Established sk socket (peer.promote (.accepted socket sk) socket)

/-! ## The headers -/

/-- The checksum functions of the kernel; nothing on the receive path looks at their results. -/
structure Checksums where
  ipFastCsum : Bytes → UInt16
  csumTcpudpMagic : Bytes → BitVec 32 → BitVec 32 → UInt16
  csumFold6 : Bytes → BitVec 128 → BitVec 128 → UInt16

/-- A zero UDP checksum would mean that there is none. -/
def mangleCsum (check : UInt16) : UInt16 := if check == 0 then 0xffff else check

inductive EthProto where
  | ip
  | ipv6
  | other
deriving Repr, DecidableEq

/-- A linear buffer with its network header at the front. -/
structure SynthSkb where
  data : Bytes
  transportOffset : Nat
  protocol : EthProto
  skbIif : Nat
deriving Repr, DecidableEq

abbrev ipprotoUdp : UInt8 := 17

def udpHeader (source dest : UInt16) (payloadLen : Nat) (check : UInt16) : Bytes :=
  BigEndian.encode 2 source.toNat ++ BigEndian.encode 2 dest.toNat ++
    BigEndian.encode 2 (udpHdrLen + payloadLen) ++ BigEndian.encode 2 check.toNat

def ipv4Header (totLen : Nat) (frag : FragInfo) (check : UInt16) (saddr daddr : BitVec 32) :
    Bytes :=
  [0x45, 0] ++ BigEndian.encode 2 totLen ++ frag.toBytes ++ [64, ipprotoUdp] ++
    BigEndian.encode 2 check.toNat ++ BigEndian.encode 4 saddr.toNat ++
    BigEndian.encode 4 daddr.toNat

def ipv6Header (payloadLen : Nat) (saddr daddr : BitVec 128) : Bytes :=
  [0x60, 0, 0, 0] ++ BigEndian.encode 2 payloadLen ++ [ipprotoUdp, 64] ++
    BigEndian.encode 16 saddr.toNat ++ BigEndian.encode 16 daddr.toNat

/-- The two ends of the synthetic datagram, the source first. -/
def fakeTuple (peer : InboundTuple) (socket : Nat) (sk : CarrierSock) :
    Option (SockAddr × SockAddr) :=
  if peer.inboundSocket == some socket then
    -- `copy_sock_addresses` stores two addresses of one family.
    match peer.inboundSource, peer.inboundDest with
    | some (.inet sport saddr), some (.inet dport daddr) =>
        some (.inet dport daddr, .inet sport saddr)
    | some (.inet6 sport saddr scope), some (.inet6 dport daddr scope') =>
        some (.inet6 dport daddr scope', .inet6 sport saddr scope)
    | _, _ => none
  else
    match sk.tuple with
    | .inet sport saddr dport daddr => some (.inet dport daddr, .inet sport saddr)
    | .inet6 sport saddr dport daddr => some (.inet6 dport daddr 0, .inet6 sport saddr 0)

/-- The packet of a record as the reader hands it to `wg_receive`: `wg_tcp_build_fake_headers`,
and for IPv4 the fragment fields restored from the fragment header, if there was one. Without
one, the two fields of the IPv4 header keep what the memory held (`stale`). -/
def buildFakeHeaders (csum : Checksums) (stale : FragInfo) (frag : Option FragInfo)
    (payload : Bytes) (sk : CarrierSock) : SockAddr × SockAddr → Option SynthSkb
  | (.inet source saddr, .inet dest daddr) =>
      let totLen := 20 + udpHdrLen + payload.length
      let check := mangleCsum
        (csum.csumTcpudpMagic (udpHeader source dest payload.length 0 ++ payload) saddr daddr)
      let frag := frag.getD stale
      let ipCheck := csum.ipFastCsum (ipv4Header totLen frag 0 saddr daddr)
      some
        { data := ipv4Header totLen frag ipCheck saddr daddr ++
            udpHeader source dest payload.length check ++ payload
          transportOffset := 20
          protocol := .ip
          skbIif := 0 }
  | (.inet6 source saddr scope, .inet6 dest daddr _) =>
      let check := mangleCsum
        (csum.csumFold6 (udpHeader source dest payload.length 0 ++ payload) saddr daddr)
      some
        { data := ipv6Header (udpHdrLen + payload.length) saddr daddr ++
            udpHeader source dest payload.length check ++ payload
          transportOffset := 40
          protocol := .ipv6
          skbIif := if scope == 0 then sk.boundDevIf else scope }
  | _ => none

/-- `ip_tunnel_parse_protocol`, by the length and the version of the network header. -/
def SynthSkb.ipTunnelParseProtocol (skb : SynthSkb) : EthProto :=
  if 20 ≤ skb.data.length && skb.data.headD 0 >>> 4 == 4 then .ip
  else if 40 ≤ skb.data.length && skb.data.headD 0 >>> 4 == 6 then .ipv6
  else .other

def SynthSkb.wgCheckPacketProtocol (skb : SynthSkb) : Bool :=
  skb.ipTunnelParseProtocol != .other && skb.protocol == skb.ipTunnelParseProtocol

/-- A field of the buffer. -/
def SynthSkb.field (skb : SynthSkb) (offset len : Nat) : Nat :=
  BigEndian.decode ((skb.data.drop offset).take len)

def wgSocketEndpointFromSkb (skb : SynthSkb) : Option Endpoint :=
  let port := UInt16.ofNat (skb.field skb.transportOffset 2)
  match skb.protocol with
  | .ip =>
      some (.inet port (BitVec.ofNat 32 (skb.field 12 4)) (BitVec.ofNat 32 (skb.field 16 4))
        skb.skbIif)
  | .ipv6 =>
      let saddr := BitVec.ofNat 128 (skb.field 8 16)
      some (.inet6 port saddr (ipv6IfaceScopeId saddr skb.skbIif)
        (BitVec.ofNat 128 (skb.field 24 16)))
  | .other => none

/-- The packet as dispatch sees it. A linear buffer has nothing to pull. -/
def SynthSkb.toIngress (skb : SynthSkb) : IngressSkb where
  data := skb.data
  transportOffset := skb.transportOffset
  protocolOk := skb.wgCheckPacketProtocol
  pulls := true
  source := wgSocketEndpointFromSkb skb

/-! ## Reading the headers back -/

theorem length_udpHeader (source dest : UInt16) (payloadLen : Nat) (check : UInt16) :
    (udpHeader source dest payloadLen check).length = udpHdrLen := by
  simp [udpHeader]

theorem length_ipv4Header (totLen : Nat) (frag : FragInfo) (check : UInt16)
    (saddr daddr : BitVec 32) : (ipv4Header totLen frag check saddr daddr).length = 20 := by
  simp [ipv4Header, wgTcpFragHdrLen]

theorem length_ipv6Header (payloadLen : Nat) (saddr daddr : BitVec 128) :
    (ipv6Header payloadLen saddr daddr).length = 40 := by
  simp [ipv6Header]

theorem SynthSkb.field_eq {skb : SynthSkb} {front rest : Bytes} {offset width n : Nat}
    (hdata : skb.data = front ++ (BigEndian.encode width n ++ rest)) (hlen : front.length = offset)
    (hn : n < 256 ^ width) : skb.field offset width = n := by
  rw [SynthSkb.field, hdata, ← hlen, List.drop_left, BigEndian.decode_take_encode hn]

/-- A packet in the form dispatch is stated for: behind its network header a UDP header and the
payload. The endpoint is the one read off the headers. -/
structure SynthSkb.Carries (skb : SynthSkb) (payload : Bytes) (endpoint : Endpoint) : Prop where
  endpoint_eq : wgSocketEndpointFromSkb skb = some endpoint
  ingress : ∃ network ports check, network.length ≤ 40 ∧ ports.length = 4 ∧ check.length = 2 ∧
    skb.toIngress = wgTcpBuildFakeHeaders ⟨payload, network, ports, check, endpoint⟩

theorem SynthSkb.carries {skb : SynthSkb} {network payload : Bytes} {source dest : UInt16}
    {check : UInt16} {endpoint : Endpoint}
    (hdata : skb.data = network ++ udpHeader source dest payload.length check ++ payload)
    (hoffset : skb.transportOffset = network.length) (hlen : network.length ≤ 40)
    (hproto : skb.wgCheckPacketProtocol = true)
    (hendpoint : wgSocketEndpointFromSkb skb = some endpoint) : skb.Carries payload endpoint := by
  refine ⟨hendpoint, network, BigEndian.encode 2 source.toNat ++ BigEndian.encode 2 dest.toNat,
    BigEndian.encode 2 check.toNat, hlen, by simp, by simp, ?_⟩
  rw [SynthSkb.toIngress, hdata, hoffset, hproto, hendpoint]
  rfl

theorem SynthSkb.field_port {skb : SynthSkb} {network payload : Bytes} {source dest : UInt16}
    {check : UInt16}
    (hdata : skb.data = network ++ udpHeader source dest payload.length check ++ payload)
    (hoffset : skb.transportOffset = network.length) :
    UInt16.ofNat (skb.field skb.transportOffset 2) = source := by
  rw [@SynthSkb.field_eq skb network
      (BigEndian.encode 2 dest.toNat ++ BigEndian.encode 2 (udpHdrLen + payload.length) ++
        BigEndian.encode 2 check.toNat ++ payload) _ 2 source.toNat
      (by simp [hdata, udpHeader]) hoffset.symm source.toNat_lt, UInt16.ofNat_toNat]

theorem ipv4Header_addrs {skb : SynthSkb} {totLen : Nat} {frag : FragInfo} {check : UInt16}
    {saddr daddr : BitVec 32} {rest : Bytes}
    (hdata : skb.data = ipv4Header totLen frag check saddr daddr ++ rest) :
    BitVec.ofNat 32 (skb.field 12 4) = saddr ∧ BitVec.ofNat 32 (skb.field 16 4) = daddr := by
  have hsaddr : skb.field 12 4 = saddr.toNat :=
    @SynthSkb.field_eq skb
      ([0x45, 0] ++ BigEndian.encode 2 totLen ++ frag.toBytes ++ [64, ipprotoUdp] ++
        BigEndian.encode 2 check.toNat)
      (BigEndian.encode 4 daddr.toNat ++ rest) 12 4 saddr.toNat
      (by simp [hdata, ipv4Header]) (by simp [wgTcpFragHdrLen]) saddr.isLt
  have hdaddr : skb.field 16 4 = daddr.toNat :=
    @SynthSkb.field_eq skb
      ([0x45, 0] ++ BigEndian.encode 2 totLen ++ frag.toBytes ++ [64, ipprotoUdp] ++
        BigEndian.encode 2 check.toNat ++ BigEndian.encode 4 saddr.toNat)
      rest 16 4 daddr.toNat
      (by simp [hdata, ipv4Header]) (by simp [wgTcpFragHdrLen]) daddr.isLt
  rw [hsaddr, hdaddr]
  exact ⟨by simp, by simp⟩

theorem ipv6Header_addrs {skb : SynthSkb} {payloadLen : Nat} {saddr daddr : BitVec 128}
    {rest : Bytes} (hdata : skb.data = ipv6Header payloadLen saddr daddr ++ rest) :
    BitVec.ofNat 128 (skb.field 8 16) = saddr ∧ BitVec.ofNat 128 (skb.field 24 16) = daddr := by
  have hsaddr : skb.field 8 16 = saddr.toNat :=
    @SynthSkb.field_eq skb
      ([0x60, 0, 0, 0] ++ BigEndian.encode 2 payloadLen ++ [ipprotoUdp, 64])
      (BigEndian.encode 16 daddr.toNat ++ rest) 8 16 saddr.toNat
      (by simp [hdata, ipv6Header]) (by simp) saddr.isLt
  have hdaddr : skb.field 24 16 = daddr.toNat :=
    @SynthSkb.field_eq skb
      ([0x60, 0, 0, 0] ++ BigEndian.encode 2 payloadLen ++ [ipprotoUdp, 64] ++
        BigEndian.encode 16 saddr.toNat)
      rest 24 16 daddr.toNat (by simp [hdata, ipv6Header]) (by simp) daddr.isLt
  rw [hsaddr, hdaddr]
  exact ⟨by simp, by simp⟩

theorem SynthSkb.checkProtocol_ip {skb : SynthSkb} (hproto : skb.protocol = .ip)
    (hfront : skb.data.headD 0 = 0x45) (hlen : 20 ≤ skb.data.length) :
    skb.wgCheckPacketProtocol = true := by
  have hparse : skb.ipTunnelParseProtocol = .ip := by
    have hversion : ((0x45 : UInt8) >>> 4 == 4) = true := by decide
    rw [SynthSkb.ipTunnelParseProtocol, hfront, hversion, Bool.and_true,
      if_pos (decide_eq_true hlen)]
  rw [SynthSkb.wgCheckPacketProtocol, hparse, hproto]
  rfl

theorem SynthSkb.checkProtocol_ipv6 {skb : SynthSkb} (hproto : skb.protocol = .ipv6)
    (hfront : skb.data.headD 0 = 0x60) (hlen : 40 ≤ skb.data.length) :
    skb.wgCheckPacketProtocol = true := by
  have hparse : skb.ipTunnelParseProtocol = .ipv6 := by
    have hnot : ((0x60 : UInt8) >>> 4 == 4) = false := by decide
    have hversion : ((0x60 : UInt8) >>> 4 == 6) = true := by decide
    rw [SynthSkb.ipTunnelParseProtocol, hfront, hnot, hversion, Bool.and_true, Bool.and_false,
      if_neg Bool.false_ne_true, if_pos (decide_eq_true hlen)]
  rw [SynthSkb.wgCheckPacketProtocol, hparse, hproto]
  rfl

section Packets

variable {skb : SynthSkb} {source dest check : UInt16} {payload : Bytes}

theorem ipv4Packet_carries {totLen : Nat} {frag : FragInfo} {ipCheck : UInt16}
    {saddr daddr : BitVec 32}
    (hdata : skb.data = ipv4Header totLen frag ipCheck saddr daddr ++
      udpHeader source dest payload.length check ++ payload)
    (hoffset : skb.transportOffset = 20) (hproto : skb.protocol = .ip) (hiif : skb.skbIif = 0) :
    skb.Carries payload (.inet source saddr daddr 0) := by
  have hnetwork := length_ipv4Header totLen frag ipCheck saddr daddr
  rw [← hnetwork] at hoffset
  apply SynthSkb.carries hdata hoffset (by omega)
  · apply SynthSkb.checkProtocol_ip hproto
    · rw [hdata]
      rfl
    · simp only [hdata, List.length_append, hnetwork]
      omega
  · have haddrs := ipv4Header_addrs (hdata.trans (List.append_assoc ..))
    rw [wgSocketEndpointFromSkb, hproto, SynthSkb.field_port hdata hoffset, haddrs.1, haddrs.2,
      hiif]

theorem ipv6Packet_carries {payloadLen : Nat} {saddr daddr : BitVec 128}
    (hdata : skb.data = ipv6Header payloadLen saddr daddr ++
      udpHeader source dest payload.length check ++ payload)
    (hoffset : skb.transportOffset = 40) (hproto : skb.protocol = .ipv6) :
    skb.Carries payload (.inet6 source saddr (ipv6IfaceScopeId saddr skb.skbIif) daddr) := by
  have hnetwork := length_ipv6Header payloadLen saddr daddr
  rw [← hnetwork] at hoffset
  apply SynthSkb.carries hdata hoffset (by omega)
  · apply SynthSkb.checkProtocol_ipv6 hproto
    · rw [hdata]
      rfl
    · simp only [hdata, List.length_append, hnetwork]
      omega
  · have haddrs := ipv6Header_addrs (hdata.trans (List.append_assoc ..))
    rw [wgSocketEndpointFromSkb, hproto, SynthSkb.field_port hdata hoffset]
    simp only [haddrs.1, haddrs.2]

end Packets

/-! ## The endpoint of a packet -/

theorem ipv6IfaceScopeId_of_unicast {addr : BitVec 128} (h : ipv6Multicast addr = false)
    (iface : Nat) : ipv6IfaceScopeId addr iface = if ipv6LinkLocal addr then iface else 0 := by
  simp [ipv6IfaceScopeId, h]

/-- The scope of an address is looked up once more from the interface the packet carries. -/
theorem ipv6IfaceScopeId_idem (addr : BitVec 128) (iface : Nat) :
    ipv6IfaceScopeId addr
      (if ipv6IfaceScopeId addr iface == 0 then iface else ipv6IfaceScopeId addr iface) =
      ipv6IfaceScopeId addr iface := by
  simp only [ipv6IfaceScopeId]
  split
  · simp
  · simp

/-- Every established carrier gives the two ends of its socket, with no scope or with the one
that `getpeername` reports. -/
theorem fakeTuple_of_established {sk : CarrierSock} {socket : Nat} {peer : InboundTuple}
    (h : Established sk socket peer) :
    match sk.tuple with
    | .inet sport saddr dport daddr =>
        fakeTuple peer socket sk = some (.inet dport daddr, .inet sport saddr)
    | .inet6 sport saddr dport daddr =>
        ∃ scope scope', fakeTuple peer socket sk =
            some (.inet6 dport daddr scope, .inet6 sport saddr scope') ∧
          (scope = 0 ∨ scope = ipv6IfaceScopeId daddr sk.boundDevIf) := by
  cases h with
  | dialed _ h =>
    have hne : (peer.inboundSocket == some socket) = false := by simpa using h
    cases htuple : sk.tuple with
    | inet sport saddr dport daddr => simp [fakeTuple, hne, htuple]
    | inet6 sport saddr dport daddr => simp [fakeTuple, hne, htuple]
  | accepted =>
    cases htuple : sk.tuple with
    | inet sport saddr dport daddr =>
      simp [fakeTuple, InboundTuple.accepted, CarrierSock.kernelGetsockname,
        CarrierSock.kernelGetpeername, htuple]
    | inet6 sport saddr dport daddr =>
      simp [fakeTuple, InboundTuple.accepted, CarrierSock.kernelGetsockname,
        CarrierSock.kernelGetpeername, htuple]
  | promoted peer =>
    cases htuple : sk.tuple with
    | inet sport saddr dport daddr =>
      simp [fakeTuple, InboundTuple.promote, InboundTuple.accepted, CarrierSock.kernelGetsockname,
        CarrierSock.kernelGetpeername, htuple]
    | inet6 sport saddr dport daddr =>
      simp [fakeTuple, InboundTuple.promote, InboundTuple.accepted, CarrierSock.kernelGetsockname,
        CarrierSock.kernelGetpeername, htuple]

/-- The reader of an established carrier builds a packet of every record, and it carries the
record and the endpoint of the carrier. -/
theorem fakeHeaders_carry {sk : CarrierSock} {socket : Nat} {peer : InboundTuple}
    (h : Established sk socket peer) (csum : Checksums) (stale : FragInfo)
    (frag : Option FragInfo) (payload : Bytes) :
    ∃ tuple skb, fakeTuple peer socket sk = some tuple ∧
      buildFakeHeaders csum stale frag payload sk tuple = some skb ∧
      skb.Carries payload sk.endpoint := by
  have htuple := fakeTuple_of_established h
  cases hsk : sk.tuple with
  | inet sport saddr dport daddr =>
    rw [hsk] at htuple
    refine ⟨_, _, htuple, rfl, ?_⟩
    rw [CarrierSock.endpoint, hsk]
    exact ipv4Packet_carries rfl rfl rfl rfl
  | inet6 sport saddr dport daddr =>
    rw [hsk] at htuple
    obtain ⟨scope, scope', htuple, hscope⟩ := htuple
    refine ⟨_, _, htuple, rfl, ?_⟩
    have hunicast := sk.unicast sport saddr dport daddr hsk
    rw [CarrierSock.endpoint, hsk]
    show SynthSkb.Carries _ payload (.inet6 dport daddr _ saddr)
    rw [← ipv6IfaceScopeId_of_unicast hunicast]
    have hiif : ipv6IfaceScopeId daddr (if scope == 0 then sk.boundDevIf else scope) =
        ipv6IfaceScopeId daddr sk.boundDevIf := by
      rcases hscope with rfl | rfl
      · rfl
      · exact ipv6IfaceScopeId_idem daddr sk.boundDevIf
    rw [← hiif]
    exact ipv6Packet_carries rfl rfl rfl

/-! ## What dispatch is presented with -/

/-- The packet the reader hands over for a record names the carrier it came over: its remote
address, family and port, the local address to answer from, and the scope of a link-local
carrier. -/
theorem synthetic_endpoint {sk : CarrierSock} {socket : Nat} {peer : InboundTuple}
    (h : Established sk socket peer) (csum : Checksums) (stale : FragInfo)
    (frag : Option FragInfo) (payload : Bytes) :
    ∃ tuple skb, fakeTuple peer socket sk = some tuple ∧
      buildFakeHeaders csum stale frag payload sk tuple = some skb ∧
      wgSocketEndpointFromSkb skb = some sk.endpoint := by
  obtain ⟨tuple, skb, htuple, hskb, hcarries⟩ := fakeHeaders_carry h csum stale frag payload
  exact ⟨tuple, skb, htuple, hskb, hcarries.endpoint_eq⟩

/-- An accepted link-local carrier on interface 3. -/
def linkLocalSock : CarrierSock where
  tuple := .inet6 51820 0xfe800000000000000000000000000001 40000
    0xfe800000000000000000000000000002
  boundDevIf := 3
  unicast := by
    rintro _ _ _ _ ⟨⟩
    decide

def zeroChecksums : Checksums := ⟨fun _ => 0, fun _ _ _ => 0, fun _ _ _ => 0⟩

theorem synthetic_endpoint_promoted :
    ∃ tuple skb,
      fakeTuple (InboundTuple.promote ⟨none, none, none⟩ (.accepted 7 linkLocalSock) 7) 7
        linkLocalSock = some tuple ∧
      buildFakeHeaders zeroChecksums .none none [1, 2] linkLocalSock tuple = some skb ∧
      wgSocketEndpointFromSkb skb = some (.inet6 40000 0xfe800000000000000000000000000002 3
        0xfe800000000000000000000000000001) :=
  synthetic_endpoint (Established.promoted ⟨none, none, none⟩) zeroChecksums .none none [1, 2]

end WgTcp
