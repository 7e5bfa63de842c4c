import WgTcp.Netlink.Attr

/-!
# Configuring a device

The configuration of a device as the netlink interface sees it, and
`WG_CMD_SET_DEVICE`. What a message does to packets, timers and connections is
not part of the configuration. A message that fails leaves the error only.
-/

namespace WgTcp

namespace Netlink

open AllowedIps

inductive Errno where
  | badr
  | nodev
  | inval
  | opnotsupp
  | pfnosupport
  | perm
  | busy
  | nomem
deriving Repr, DecidableEq

/-- `char[IFNAMSIZ]`, without the terminator. -/
structure IfName where
  chars : List (BitVec 8)
  length_lt : chars.length < 16
deriving DecidableEq

/-- The name `wg0`. -/
def IfName.wg0 : IfName := ⟨[119, 103, 48], by decide⟩

/-- The configuration and the counters of a peer. -/
structure WgPeer where
  id : PeerId
  remoteStatic : Key
  presharedKey : Key
  addressing : Addressing
  persistentKeepaliveInterval : UInt16
  walltimeLastHandshake : Timespec
  rxBytes : BitVec 64
  txBytes : BitVec 64

structure WgDevice where
  name : IfName
  ifindex : BitVec 32
  netifRunning : Bool
  incomingPort : UInt16
  fwmark : BitVec 32
  transport : Transport
  hasIdentity : Bool
  staticPrivate : Key
  staticPublic : Key
  peerList : List WgPeer
  peerAllowedips : Table
  deviceUpdateGen : Nat
  /-- The next address of the allocator. -/
  nextPeer : PeerId

/-- What the rest of the kernel answers. -/
structure Env where
  /-- `ns_capable` on the namespace that the device was created in. -/
  capNetAdmin : Bool
  /-- The buffer after the call, given the one before, and whether the result is a key. -/
  curve25519GeneratePublic : Key → Key → Key × Bool
  curve25519ClampSecret : Key → Key
  /-- `wg_socket_init`: the port that was bound. -/
  wgSocketInit : WgDevice → UInt16 → Except Errno UInt16

namespace WgDevice

variable (d : WgDevice)

/-! ## Peers -/

/-- `wg_pubkey_hashtable_lookup`: the table has the peers of the list. -/
def lookupPeer (key : Key) : Option WgPeer := d.peerList.find? fun p => p.remoteStatic == key

def modifyPeer (id : PeerId) (f : WgPeer → WgPeer) : WgDevice :=
  { d with peerList := d.peerList.map fun p => if p.id = id then f p else p }

def maxPeersPerDevice : Nat := 2 ^ 20

def wgPeerCreate (publicKey : Key) (presharedKey : Option Key) : Except Errno WgDevice :=
  if maxPeersPerDevice ≤ d.peerList.length then .error .nomem
  else
    .ok { d with
      peerList := d.peerList ++
        [⟨d.nextPeer, publicKey, presharedKey.getD 0, .unset, 0, ⟨0, 0⟩, 0, 0⟩]
      nextPeer := d.nextPeer + 1 }

def wgPeerRemove (id : PeerId) : WgDevice :=
  { d with
    peerList := d.peerList.filter fun p => p.id != id
    peerAllowedips := d.peerAllowedips.wgAllowedipsRemoveByPeer id }

/-- The table is freed first, so that no peer has allowed IPs when it is made dead. -/
def wgPeerRemoveAll : WgDevice :=
  { d with
    peerList := []
    peerAllowedips :=
      d.peerList.foldl (fun T p => T.wgAllowedipsRemoveByPeer p.id)
        d.peerAllowedips.wgAllowedipsFree }

end WgDevice

/-! ## `set_allowedip` -/

/-- The attributes of a nest by type; of several the last one counts. -/
structure AllowedIpTb where
  family : Option (BitVec 16)
  ipaddr : Option (List (BitVec 8))
  cidrMask : Option (BitVec 8)
  flags : Option (BitVec 32)

def AllowedIpTb.set (tb : AllowedIpTb) : AllowedIpAttr → AllowedIpTb
  | .family family => { tb with family := some family }
  | .ipaddr ip => { tb with ipaddr := some ip }
  | .cidrMask cidr => { tb with cidrMask := some cidr }
  | .flags flags => { tb with flags := some flags }

/-- `nla_parse_nested` with `allowedip_policy`. -/
def AllowedIpTb.parse (attrs : List AllowedIpAttr) : AllowedIpTb :=
  attrs.foldl set ⟨none, none, none, none⟩

/-- `swap_endian` on the bytes of an address. -/
def swapEndian (w : Nat) (ip : List (BitVec 8)) : BitVec w :=
  ip.foldl (fun key byte => (key <<< 8) ||| byte.setWidth w) 0

def ret : Ret × Table → Except Errno Table
  | (.ok, T) => .ok T
  | (.einval, _) => .error .inval
  | (.enomem, _) => .error .nomem

def hasFlag (flags flag : BitVec 32) : Bool := flags &&& flag != 0

def wgallowedipFRemoveMe : BitVec 32 := 1

def setAllowedip (T : Table) (peer : PeerId) (tb : AllowedIpTb) : Except Errno Table :=
  match tb.family, tb.ipaddr, tb.cidrMask with
  | some family, some ip, some cidr =>
      let flags := tb.flags.getD 0
      if family = af .inet ∧ cidr.toNat ≤ 32 ∧ ip.length = 4 then
        if hasFlag flags wgallowedipFRemoveMe then
          ret (T.wgAllowedipsRemoveV4 (swapEndian 32 ip) cidr.toNat peer)
        else ret (T.wgAllowedipsInsertV4 (swapEndian 32 ip) cidr.toNat peer)
      else if family = af .inet6 ∧ cidr.toNat ≤ 128 ∧ ip.length = 16 then
        if hasFlag flags wgallowedipFRemoveMe then
          ret (T.wgAllowedipsRemoveV6 (swapEndian 128 ip) cidr.toNat peer)
        else ret (T.wgAllowedipsInsertV6 (swapEndian 128 ip) cidr.toNat peer)
      else .error .inval
  | _, _, _ => .error .inval

/-! ## `set_peer` -/

structure PeerTb where
  publicKey : Option Key
  presharedKey : Option Key
  flags : Option (BitVec 32)
  endpoint : Option SockAddr
  persistentKeepaliveInterval : Option UInt16
  allowedips : Option (List (List AllowedIpAttr))
  protocolVersion : Option (BitVec 32)

def PeerTb.empty : PeerTb := ⟨none, none, none, none, none, none, none⟩

def PeerTb.set (tb : PeerTb) : PeerAttr → PeerTb
  | .publicKey key => { tb with publicKey := some key }
  | .presharedKey key => { tb with presharedKey := some key }
  | .flags flags => { tb with flags := some flags }
  | .endpoint addr => { tb with endpoint := some addr }
  | .persistentKeepaliveInterval interval =>
      { tb with persistentKeepaliveInterval := some interval }
  | .allowedips nests => { tb with allowedips := some nests }
  | .protocolVersion version => { tb with protocolVersion := some version }
  | .lastHandshakeTime _ | .rxBytes _ | .txBytes _ => tb

/-- `nla_parse_nested` with `peer_policy`. -/
def PeerTb.parse (attrs : List PeerAttr) : PeerTb := attrs.foldl set .empty

def wgpeerFRemoveMe : BitVec 32 := 1
def wgpeerFReplaceAllowedips : BitVec 32 := 2
def wgpeerFUpdateOnly : BitVec 32 := 4
def wgpeerFAll : BitVec 32 := wgpeerFRemoveMe ||| wgpeerFReplaceAllowedips ||| wgpeerFUpdateOnly

/-- A `struct endpoint` with the address and nothing else. -/
def SockAddr.toEndpoint : SockAddr → Endpoint
  | .inet port addr => .inet port addr 0 0
  | .inet6 port addr scopeId => .inet6 port addr scopeId 0

namespace WgDevice

variable (d : WgDevice)

/-- `wg_socket_set_peer_endpoint_configured`; the connection that it may ask for is left out. -/
def setPeerEndpointConfigured (id : PeerId) (addr : SockAddr) : WgDevice :=
  d.modifyPeer id fun p =>
    { p with
      addressing := (wgSocketSetPeerEndpointInternal d.transport d.netifRunning false
        p.addressing addr.toEndpoint true).1 }

/-- The key and the endpoint of a message. -/
def setPeerHeader (id : PeerId) (tb : PeerTb) : WgDevice :=
  let d :=
    match tb.presharedKey with
    | some key => d.modifyPeer id fun p => { p with presharedKey := key }
    | none => d
  match tb.endpoint with
  | some addr => d.setPeerEndpointConfigured id addr
  | none => d

def setPeerKeepalive (id : PeerId) (tb : PeerTb) : WgDevice :=
  match tb.persistentKeepaliveInterval with
  | some interval => d.modifyPeer id fun p => { p with persistentKeepaliveInterval := interval }
  | none => d

/-- The loop over the allowed IPs of a message. -/
def setAllowedips (T : Table) (id : PeerId) (nests : List (List AllowedIpAttr)) :
    Except Errno Table :=
  nests.foldlM (fun T attrs => setAllowedip T id (.parse attrs)) T

/-- The part of `set_peer` behind the lookup. -/
def updatePeer (id : PeerId) (replaceAllowedips : Bool) (tb : PeerTb) : Except Errno WgDevice := do
  let d := d.setPeerHeader id tb
  let T :=
    if replaceAllowedips then d.peerAllowedips.wgAllowedipsRemoveByPeer id else d.peerAllowedips
  let T ← setAllowedips T id (tb.allowedips.getD [])
  return { d with peerAllowedips := T }.setPeerKeepalive id tb

def setPeer (tb : PeerTb) : Except Errno WgDevice :=
  match tb.publicKey with
  | none => .error .inval
  | some key =>
      let flags := tb.flags.getD 0
      if hasFlag flags (~~~wgpeerFAll) then .error .opnotsupp
      else if tb.protocolVersion.any (· != 1) then .error .pfnosupport
      else
        match d.lookupPeer key with
        | some peer =>
            if hasFlag flags wgpeerFRemoveMe then .ok (d.wgPeerRemove peer.id)
            else d.updatePeer peer.id (hasFlag flags wgpeerFReplaceAllowedips) tb
        | none =>
            if hasFlag flags (wgpeerFRemoveMe ||| wgpeerFUpdateOnly) then .ok d
            -- A peer with the key of the device is ignored.
            else if d.hasIdentity && key == d.staticPublic then .ok d
            else do
              -- A new peer has no allowed IPs to replace.
              let d' ← d.wgPeerCreate key tb.presharedKey
              d'.updatePeer d.nextPeer false tb

end WgDevice

/-! ## `wg_set_device` -/

structure DeviceTb where
  ifindex : Option (BitVec 32)
  ifname : Option (List (BitVec 8))
  privateKey : Option Key
  flags : Option (BitVec 32)
  listenPort : Option UInt16
  fwmark : Option (BitVec 32)
  transport : Option (BitVec 8)
  peers : Option (List (List PeerAttr))

def DeviceTb.empty : DeviceTb := ⟨none, none, none, none, none, none, none, none⟩

def DeviceTb.set (tb : DeviceTb) : DeviceAttr → DeviceTb
  | .ifindex ifindex => { tb with ifindex := some ifindex }
  | .ifname name => { tb with ifname := some name }
  | .privateKey key => { tb with privateKey := some key }
  | .flags flags => { tb with flags := some flags }
  | .listenPort port => { tb with listenPort := some port }
  | .fwmark mark => { tb with fwmark := some mark }
  | .transport transport => { tb with transport := some transport }
  | .peers nests => { tb with peers := some nests }
  | .publicKey _ => tb

/-- The attributes of a message by type, as generic netlink hands them over. -/
def DeviceTb.parse (msg : Message) : DeviceTb := msg.foldl set .empty

def wgdeviceFReplacePeers : BitVec 32 := 1
def wgdeviceFAll : BitVec 32 := wgdeviceFReplacePeers

def Endpoint.clearSrc : Endpoint → Endpoint
  | .unspec => .unspec
  | .inet port addr _ _ => .inet port addr 0 0
  | .inet6 port addr scopeId _ => .inet6 port addr scopeId 0

namespace WgDevice

variable (d : WgDevice)

/-- `wg_socket_clear_peer_endpoint_src` on every peer. -/
def clearEndpointSrcs : WgDevice :=
  { d with
    peerList := d.peerList.map fun p =>
      { p with
        addressing := { p.addressing with endpoint := Endpoint.clearSrc p.addressing.endpoint } } }

def setPort (env : Env) (port : UInt16) : Except Errno WgDevice :=
  if d.incomingPort = port then .ok d
  else if d.transport = .tcp ∧ d.netifRunning = true then .error .busy
  else
    let d := d.clearEndpointSrcs
    if d.netifRunning then do
      let port ← env.wgSocketInit d port
      return { d with incomingPort := port }
    else .ok { d with incomingPort := port }

def setTransport (flags : BitVec 32) (transport : BitVec 8) : Except Errno WgDevice :=
  if 1 < transport.toNat then .error .inval
  else if transport = transportByte d.transport then .ok d
  else if d.netifRunning || (!d.peerList.isEmpty && !hasFlag flags wgdeviceFReplacePeers) then
    .error .busy
  else .ok { d with transport := if transport = 0 then .udp else .tcp }

def setFwmark (mark : BitVec 32) : WgDevice := { d with fwmark := mark }.clearEndpointSrcs

/-- The peer with the new public key is removed before the key is set. -/
def setPrivateKey (env : Env) (key : Key) : WgDevice :=
  if d.staticPrivate = key then d
  else
    let (publicKey, generated) := env.curve25519GeneratePublic 0 key
    let d :=
      match if generated then d.lookupPeer publicKey else none with
      | some peer => d.wgPeerRemove peer.id
      | none => d
    let (staticPublic, hasIdentity) := env.curve25519GeneratePublic d.staticPublic key
    { d with
      staticPrivate := env.curve25519ClampSecret key
      staticPublic := staticPublic
      hasIdentity := hasIdentity }

/-- `lookup_interface`, when there is no other device. -/
def lookupInterface (tb : DeviceTb) : Except Errno Unit :=
  match tb.ifindex, tb.ifname with
  | some ifindex, none => if ifindex = d.ifindex then .ok () else .error .nodev
  | none, some name => if name = d.name.chars then .ok () else .error .nodev
  | _, _ => .error .badr

/-- The part of `wg_set_device` before the peers. -/
def setAttrs (env : Env) (tb : DeviceTb) : Except Errno WgDevice := do
  let flags := tb.flags.getD 0
  if hasFlag flags (~~~wgdeviceFAll) then throw .opnotsupp
  if (tb.listenPort.isSome || tb.fwmark.isSome || tb.transport.isSome) && !env.capNetAdmin then
    throw .perm
  let d ← (tb.transport.elim (pure d) (d.setTransport flags))
  let d := { d with deviceUpdateGen := d.deviceUpdateGen + 1 }
  let d := tb.fwmark.elim d d.setFwmark
  let d ← (tb.listenPort.elim (pure d) (d.setPort env))
  let d := if hasFlag flags wgdeviceFReplacePeers then d.wgPeerRemoveAll else d
  return tb.privateKey.elim d (d.setPrivateKey env)

/-- The loop over the peers of a message. -/
def setPeers (nests : List (List PeerAttr)) : Except Errno WgDevice :=
  nests.foldlM (fun d attrs => d.setPeer (.parse attrs)) d

def wgSetDevice (env : Env) (msg : Message) : Except Errno WgDevice := do
  let tb := DeviceTb.parse msg
  d.lookupInterface tb
  let d ← d.setAttrs env tb
  d.setPeers (tb.peers.getD [])

end WgDevice

/-! ## Devices that the interface can build -/

theorem bind_eq_ok {ε α β : Type} {x : Except ε α} {f : α → Except ε β} {b : β} :
    x >>= f = .ok b ↔ ∃ a, x = .ok a ∧ f a = .ok b := by
  cases x with
  | error e => simp [bind, Except.bind]
  | ok a => simp [bind, Except.bind]

/-- The tries and the lists of a table agree on some map. -/
def Sound (T : Table) : Prop := ∃ F R, Shaped T F ∧ Reflects F R

theorem Sound.init : Sound .init := ⟨_, _, Shaped.init, Reflects.init⟩

theorem Sound.apply {T : Table} (h : Sound T) (op : Op) : Sound (T.apply op) := by
  obtain ⟨F, R, hF, hR⟩ := h
  obtain ⟨F', hF', hR'⟩ := hF.apply hR op
  exact ⟨F', _, hF', hR'⟩

theorem ret_eq_ok {r : Ret × Table} {T : Table} (h : ret r = .ok T) : T = r.2 := by
  obtain ⟨_ | _ | _, T'⟩ := r <;> cases h
  rfl

/-- An allowed IP of a message is at most one operation on the table. -/
theorem setAllowedip_eq_ok {T T' : Table} {peer : PeerId} {tb : AllowedIpTb}
    (h : setAllowedip T peer tb = .ok T') : ∃ op, T' = T.apply op := by
  unfold setAllowedip at h
  split at h
  · dsimp only at h
    split at h
    · split at h
      · exact ⟨.remove .inet _ _ _, ret_eq_ok h⟩
      · exact ⟨.insert .inet _ _ _, ret_eq_ok h⟩
    · split at h
      · split at h
        · exact ⟨.remove .inet6 _ _ _, ret_eq_ok h⟩
        · exact ⟨.insert .inet6 _ _ _, ret_eq_ok h⟩
      · cases h
  · cases h

namespace WgDevice

/-- No two peers have the same key or the same address. -/
structure Valid (d : WgDevice) : Prop where
  keys : (d.peerList.map WgPeer.remoteStatic).Nodup
  ids : (d.peerList.map WgPeer.id).Nodup
  ids_lt : ∀ id ∈ d.peerList.map WgPeer.id, id < d.nextPeer
  table : Sound d.peerAllowedips

variable {d d' : WgDevice}

/-- Of the peers of a device, some are left. -/
theorem Valid.of_sublist (h : d.Valid)
    (hkeys : (d'.peerList.map WgPeer.remoteStatic).Sublist (d.peerList.map WgPeer.remoteStatic))
    (hids : (d'.peerList.map WgPeer.id).Sublist (d.peerList.map WgPeer.id))
    (hnext : d'.nextPeer = d.nextPeer) (htable : Sound d'.peerAllowedips) : d'.Valid where
  keys := h.keys.sublist hkeys
  ids := h.ids.sublist hids
  ids_lt id hid := hnext ▸ h.ids_lt id (hids.subset hid)
  table := htable

/-- The peers are the same but for what neither key nor address says. -/
theorem Valid.of_map (h : d.Valid) {f : WgPeer → WgPeer} (hlist : d'.peerList = d.peerList.map f)
    (hkey : ∀ p, (f p).remoteStatic = p.remoteStatic) (hid : ∀ p, (f p).id = p.id)
    (hnext : d'.nextPeer = d.nextPeer) (htable : Sound d'.peerAllowedips) : d'.Valid := by
  refine h.of_sublist ?_ ?_ hnext htable
  · rw [hlist, List.map_map]
    exact (List.map_congr_left fun p _ => hkey p) ▸ List.Sublist.refl _
  · rw [hlist, List.map_map]
    exact (List.map_congr_left fun p _ => hid p) ▸ List.Sublist.refl _

theorem Valid.modifyPeer (h : d.Valid) (id : PeerId) {f : WgPeer → WgPeer}
    (hkey : ∀ p, (f p).remoteStatic = p.remoteStatic) (hid : ∀ p, (f p).id = p.id) :
    (d.modifyPeer id f).Valid := by
  refine @Valid.of_map d (d.modifyPeer id f) h _ rfl ?_ ?_ rfl h.table
  · intro p
    split
    · exact hkey p
    · rfl
  · intro p
    split
    · exact hid p
    · rfl

theorem Valid.setPeerHeader (h : d.Valid) (id : PeerId) (tb : PeerTb) :
    (d.setPeerHeader id tb).Valid := by
  have hendpoint {d₁ : WgDevice} (h₁ : d₁.Valid) (addr : SockAddr) :
      (d₁.setPeerEndpointConfigured id addr).Valid :=
    h₁.modifyPeer id (fun _ => rfl) fun _ => rfl
  have hkey (key : Key) : (d.modifyPeer id fun p => { p with presharedKey := key }).Valid :=
    h.modifyPeer id (fun _ => rfl) fun _ => rfl
  unfold WgDevice.setPeerHeader
  cases tb.presharedKey with
  | none =>
    cases tb.endpoint with
    | none => exact h
    | some addr => exact hendpoint h addr
  | some key =>
    cases tb.endpoint with
    | none => exact hkey key
    | some addr => exact hendpoint (hkey key) addr

theorem Valid.setPeerKeepalive (h : d.Valid) (id : PeerId) (tb : PeerTb) :
    (d.setPeerKeepalive id tb).Valid := by
  unfold WgDevice.setPeerKeepalive
  split
  · exact h.modifyPeer id (fun _ => rfl) fun _ => rfl
  · exact h

theorem Valid.setTable (h : d.Valid) {T : Table} (hT : Sound T) :
    { d with peerAllowedips := T }.Valid :=
  ⟨h.keys, h.ids, h.ids_lt, hT⟩

theorem setAllowedips_sound {T T' : Table} {id : PeerId} {nests : List (List AllowedIpAttr)}
    (hT : Sound T) (h : setAllowedips T id nests = .ok T') : Sound T' := by
  induction nests generalizing T with
  | nil =>
    cases h
    exact hT
  | cons attrs rest ih =>
    rw [setAllowedips, List.foldlM_cons, bind_eq_ok] at h
    obtain ⟨T₁, hhead, hrest⟩ := h
    obtain ⟨op, rfl⟩ := setAllowedip_eq_ok hhead
    exact ih (hT.apply op) hrest

theorem Valid.updatePeer (h : d.Valid) {id : PeerId} {replace : Bool} {tb : PeerTb}
    (hupdate : d.updatePeer id replace tb = .ok d') : d'.Valid := by
  obtain ⟨T, hT, hd'⟩ := bind_eq_ok.mp hupdate
  cases hd'
  have hheader := h.setPeerHeader id tb
  refine (hheader.setTable (setAllowedips_sound ?_ hT)).setPeerKeepalive id tb
  split
  · exact hheader.table.apply (.removeByPeer id)
  · exact hheader.table

theorem Valid.wgPeerRemove (h : d.Valid) (id : PeerId) : (d.wgPeerRemove id).Valid :=
  h.of_sublist (List.filter_sublist.map _) (List.filter_sublist.map _) rfl
    (h.table.apply (.removeByPeer id))

theorem lookupPeer_eq_none {key : Key} :
    d.lookupPeer key = none ↔ key ∉ d.peerList.map WgPeer.remoteStatic := by
  simp [lookupPeer, List.find?_eq_none]

theorem Valid.wgPeerCreate (h : d.Valid) {key : Key} {psk : Option Key}
    (hkey : d.lookupPeer key = none) (hcreate : d.wgPeerCreate key psk = .ok d') : d'.Valid := by
  unfold WgDevice.wgPeerCreate at hcreate
  split at hcreate
  · cases hcreate
  cases hcreate
  refine ⟨?_, ?_, ?_, h.table⟩
  · simp only [List.map_append, List.map_cons, List.map_nil]
    exact h.keys.append (List.nodup_singleton _) (by simpa using lookupPeer_eq_none.mp hkey)
  · simp only [List.map_append, List.map_cons, List.map_nil]
    refine h.ids.append (List.nodup_singleton _) ?_
    rw [List.disjoint_singleton]
    exact fun hmem => lt_irrefl _ (h.ids_lt _ hmem)
  · simp only [List.map_append, List.map_cons, List.map_nil, List.mem_append, List.mem_singleton]
    rintro id (hid | rfl)
    · exact (h.ids_lt id hid).trans (Nat.lt_succ_self _)
    · exact Nat.lt_succ_self _

theorem Valid.setPeer (h : d.Valid) {tb : PeerTb} (hset : d.setPeer tb = .ok d') : d'.Valid := by
  unfold WgDevice.setPeer at hset
  split at hset
  · cases hset
  dsimp only at hset
  split at hset
  · cases hset
  split at hset
  · cases hset
  split at hset
  · next peer _ =>
    split at hset
    · cases hset
      exact h.wgPeerRemove peer.id
    · exact h.updatePeer hset
  · next hkey =>
    split at hset
    · cases hset
      exact h
    split at hset
    · cases hset
      exact h
    obtain ⟨d₁, hcreate, hupdate⟩ := bind_eq_ok.mp hset
    exact (h.wgPeerCreate hkey hcreate).updatePeer hupdate

theorem Valid.setPeers (h : d.Valid) {nests : List (List PeerAttr)}
    (hset : d.setPeers nests = .ok d') : d'.Valid := by
  induction nests generalizing d with
  | nil =>
    cases hset
    exact h
  | cons attrs rest ih =>
    rw [WgDevice.setPeers, List.foldlM_cons, bind_eq_ok] at hset
    obtain ⟨d₁, hhead, hrest⟩ := hset
    exact ih (h.setPeer hhead) hrest

theorem Valid.clearEndpointSrcs (h : d.Valid) : d.clearEndpointSrcs.Valid :=
  h.of_map rfl (fun _ => rfl) (fun _ => rfl) rfl h.table

theorem Valid.wgPeerRemoveAll (h : d.Valid) : d.wgPeerRemoveAll.Valid := by
  refine h.of_sublist (List.nil_sublist _) (List.nil_sublist _) rfl ?_
  have hloop (T : Table) (hT : Sound T) (peers : List WgPeer) :
      Sound (peers.foldl (fun T p => T.wgAllowedipsRemoveByPeer p.id) T) := by
    induction peers generalizing T with
    | nil => exact hT
    | cons p rest ih => exact ih _ (hT.apply (.removeByPeer p.id))
  exact hloop _ (h.table.apply .free) d.peerList

/-- Fields other than the peers and the table. -/
theorem Valid.congr (h : d.Valid) (hlist : d'.peerList = d.peerList)
    (hnext : d'.nextPeer = d.nextPeer) (htable : d'.peerAllowedips = d.peerAllowedips) :
    d'.Valid :=
  h.of_map (f := id) (by simpa using hlist) (fun _ => rfl) (fun _ => rfl) hnext (htable ▸ h.table)

theorem Valid.setFwmark (h : d.Valid) (mark : BitVec 32) : (d.setFwmark mark).Valid := by
  have hmark : { d with fwmark := mark }.Valid := h.congr rfl rfl rfl
  exact hmark.clearEndpointSrcs

theorem Valid.setPrivateKey (h : d.Valid) (env : Env) (key : Key) :
    (d.setPrivateKey env key).Valid := by
  unfold WgDevice.setPrivateKey
  split
  · exact h
  dsimp only
  split
  · next peer _ => exact (h.wgPeerRemove peer.id).congr rfl rfl rfl
  · exact h.congr rfl rfl rfl

theorem Valid.setTransport (h : d.Valid) {flags : BitVec 32} {transport : BitVec 8}
    (hset : d.setTransport flags transport = .ok d') : d'.Valid := by
  unfold WgDevice.setTransport at hset
  repeat' split at hset
  all_goals cases hset
  · exact h
  all_goals exact h.congr rfl rfl rfl

theorem Valid.setPort (h : d.Valid) {env : Env} {port : UInt16}
    (hset : d.setPort env port = .ok d') : d'.Valid := by
  unfold WgDevice.setPort at hset
  split at hset
  · cases hset
    exact h
  split at hset
  · cases hset
  dsimp only at hset
  split at hset
  · obtain ⟨_, -, hd'⟩ := bind_eq_ok.mp hset
    cases hd'
    exact h.clearEndpointSrcs.congr rfl rfl rfl
  · cases hset
    exact h.clearEndpointSrcs.congr rfl rfl rfl

theorem Valid.setAttrs (h : d.Valid) {env : Env} {tb : DeviceTb}
    (hset : d.setAttrs env tb = .ok d') : d'.Valid := by
  unfold WgDevice.setAttrs at hset
  dsimp only at hset
  split at hset
  · cases hset
  split at hset
  · cases hset
  obtain ⟨d₁, htransport, hset⟩ := bind_eq_ok.mp hset
  obtain ⟨d₂, hport, hset⟩ := bind_eq_ok.mp hset
  have h₁ : d₁.Valid := by
    cases ht : tb.transport with
    | none =>
      rw [ht] at htransport
      cases htransport
      exact h
    | some transport =>
      rw [ht] at htransport
      exact h.setTransport htransport
  have hgen : { d₁ with deviceUpdateGen := d₁.deviceUpdateGen + 1 }.Valid := h₁.congr rfl rfl rfl
  have hmark : (tb.fwmark.elim { d₁ with deviceUpdateGen := d₁.deviceUpdateGen + 1 }
      (WgDevice.setFwmark { d₁ with deviceUpdateGen := d₁.deviceUpdateGen + 1 })).Valid := by
    cases tb.fwmark with
    | none => exact hgen
    | some mark => exact hgen.setFwmark mark
  have h₂ : d₂.Valid := by
    cases hp : tb.listenPort with
    | none =>
      rw [hp] at hport
      cases hport
      exact hmark
    | some port =>
      rw [hp] at hport
      exact hmark.setPort hport
  cases hset
  have hreplace : (if hasFlag (tb.flags.getD 0) wgdeviceFReplacePeers then d₂.wgPeerRemoveAll
      else d₂).Valid := by
    split
    · exact h₂.wgPeerRemoveAll
    · exact h₂
  cases tb.privateKey with
  | none => exact hreplace
  | some key => exact hreplace.setPrivateKey env key

/-- A message keeps a device valid. -/
theorem Valid.wgSetDevice (h : d.Valid) {env : Env} {msg : Message}
    (hset : d.wgSetDevice env msg = .ok d') : d'.Valid := by
  obtain ⟨_, -, hset⟩ := bind_eq_ok.mp hset
  obtain ⟨d₁, hattrs, hpeers⟩ := bind_eq_ok.mp hset
  exact (h.setAttrs hattrs).setPeers hpeers

end WgDevice

/-- A device as messages leave it. -/
structure Device extends WgDevice where
  valid : toWgDevice.Valid

end Netlink

end WgTcp
