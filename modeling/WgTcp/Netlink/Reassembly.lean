import WgTcp.Netlink.Dump
import WgTcp.Tools.Containers

/-!
# Reading a dump

The tools parse the messages of a dump one after the other into one device,
where a peer that was cut into fragments appears several times in a row, and
then merge neighbours with the same key. With buffers that have room for one
allowed IP, what they end with is the device.
-/

namespace WgTcp

namespace Tools

open AllowedIps Netlink Fragments

/-! ## Parsing -/

/-- `MNL_CB_OK`, `MNL_CB_STOP` and `MNL_CB_ERROR`. -/
inductive MnlCb where
  | ok
  | stop
  | error
deriving Repr, DecidableEq

/-- `mnl_attr_parse` and `mnl_attr_parse_nested`. -/
def mnlAttrParse {α σ : Type*} (cb : α → σ → MnlCb × σ) : List α → σ → MnlCb × σ
  | [], data => (.ok, data)
  | attr :: rest, data =>
      match cb attr data with
      | (.ok, data) => mnlAttrParse cb rest data
      | r => r

/-- `memcpy` into the union of the addresses. -/
def copyIp (ip : List (BitVec 8)) (old : Fin 16 → BitVec 8) : Fin 16 → BitVec 8 :=
  fun i => ip.getD i (old i)

def parseAllowedip (attr : AllowedIpAttr) (allowedip : Wgallowedip) : MnlCb × Wgallowedip :=
  match attr with
  | .family family => (.ok, { allowedip with family := family })
  | .ipaddr ip =>
      if ip.length = 4 ∨ ip.length = 16 then
        (.ok, { allowedip with ip := copyIp ip allowedip.ip })
      else (.ok, allowedip)
  | .cidrMask cidr => (.ok, { allowedip with cidr := cidr })
  | .flags _ => (.ok, allowedip)

def parseAllowedips (nest : List AllowedIpAttr) (peer : Wgpeer) : MnlCb × Wgpeer :=
  let (ret, new) := mnlAttrParse parseAllowedip nest .zero
  let peer := { peer with allowedips := peer.allowedips ++ [new], lastAllowedip := true }
  if ret = .stop then (.stop, peer)
  else if (new.family = af .inet ∧ new.cidr.toNat ≤ 32) ∨
      (new.family = af .inet6 ∧ new.cidr.toNat ≤ 128) then (.ok, peer)
  else (.error, peer)

def parsePeer (attr : PeerAttr) (peer : Wgpeer) : MnlCb × Wgpeer :=
  match attr with
  | .publicKey key => (.ok, { peer with publicKey := key, hasPublicKey := true })
  | .presharedKey key =>
      (.ok, { peer with
        presharedKey := key
        hasPresharedKey := peer.hasPresharedKey || key != 0 })
  | .endpoint addr => (.ok, { peer with endpoint := some addr })
  | .persistentKeepaliveInterval interval =>
      (.ok, { peer with persistentKeepaliveInterval := interval })
  | .lastHandshakeTime time => (.ok, { peer with lastHandshakeTime := time })
  | .rxBytes bytes => (.ok, { peer with rxBytes := bytes })
  | .txBytes bytes => (.ok, { peer with txBytes := bytes })
  | .allowedips nests => mnlAttrParse parseAllowedips nests peer
  | .flags _ | .protocolVersion _ => (.ok, peer)

/-- An error inside a peer is not passed on if the peer has a key. -/
def parsePeers (nest : List PeerAttr) (device : Wgdevice) : MnlCb × Wgdevice :=
  let (ret, new) := mnlAttrParse parsePeer nest .zero
  let device := { device with peers := device.peers ++ [new] }
  if ret = .stop then (.stop, device)
  else if new.hasPublicKey then (.ok, device)
  else (.error, device)

def parseDevice (attr : DeviceAttr) (device : Wgdevice) : MnlCb × Wgdevice :=
  match attr with
  | .ifindex ifindex => (.ok, { device with ifindex := ifindex })
  | .ifname name => (.ok, { device with name := name.take 15 })
  | .privateKey key => (.ok, { device with privateKey := key, hasPrivateKey := true })
  | .publicKey key => (.ok, { device with publicKey := key, hasPublicKey := true })
  | .listenPort port => (.ok, { device with listenPort := port })
  | .fwmark mark => (.ok, { device with fwmark := mark })
  | .transport transport =>
      if 1 < transport.toNat then (.error, { device with transport := transport })
      else (.ok, { device with transport := transport, hasTransport := true })
  | .peers nests => mnlAttrParse parsePeers nests device
  | .flags _ => (.ok, device)

/-- `mnlg_socket_recv_run` with `read_device_cb`: fails at the first message that does. -/
def readDevice : List Message → Wgdevice → Option Wgdevice
  | [], device => some device
  | msg :: rest, device =>
      match mnlAttrParse parseDevice msg device with
      | (.ok, device) => readDevice rest device
      | (.stop, device) => some device
      | (.error, _) => none

/-! ## Merging -/

/-- The allowed IPs of `q` behind those of `p`; `none` is an access through the null pointer. -/
def mergePeer (p q : Wgpeer) : Option Wgpeer :=
  if p.allowedips = [] then
    some { p with allowedips := q.allowedips, lastAllowedip := q.lastAllowedip }
  else if p.lastAllowedip then
    some { p with allowedips := p.allowedips ++ q.allowedips, lastAllowedip := q.lastAllowedip }
  else none

/-- The loop of `coalesce_peers` at the peer `p`. -/
def coalesceFrom (p : Wgpeer) : List Wgpeer → Option (List Wgpeer)
  | [] => some [p]
  | q :: rest =>
      if p.publicKey = q.publicKey then (mergePeer p q).bind fun p => coalesceFrom p rest
      else (coalesceFrom q rest).map (p :: ·)

def coalescePeers : List Wgpeer → Option (List Wgpeer)
  | [] => some []
  | p :: rest => coalesceFrom p rest

/-- `kernel_get_device` on the messages of a dump. -/
def kernelGetDevice (msgs : List Message) : Option Wgdevice := do
  let device ← readDevice msgs .zero
  let peers ← coalescePeers device.peers
  return { device with peers := peers }

/-! ## What the tools end with -/

/-- An allowed IP of a peer. -/
def Wgallowedip.ofItem (T : Table) (item : Item) : Wgallowedip :=
  let (ip, cidr) := wgAllowedipsReadNode ((T.trie item.1).data item.2)
  ⟨af item.1, copyIp ip fun _ => 0, BitVec.ofNat 8 cidr, 0⟩

/-- A peer with some of its allowed IPs. -/
def Wgpeer.ofFragment (d : WgDevice) (f : Fragment WgPeer Item) : Wgpeer :=
  let p := f.group
  let base : Wgpeer :=
    { Wgpeer.zero with
      hasPublicKey := true
      publicKey := p.remoteStatic
      allowedips := f.items.map (.ofItem d.peerAllowedips)
      lastAllowedip := !f.items.isEmpty }
  if f.first then
    { base with
      hasPresharedKey := p.presharedKey != 0
      presharedKey := p.presharedKey
      endpoint := d.dumpEndpoint p
      lastHandshakeTime := p.walltimeLastHandshake
      rxBytes := p.rxBytes
      txBytes := p.txBytes
      persistentKeepaliveInterval := p.persistentKeepaliveInterval }
  else base

/-- A peer with all its allowed IPs, in the order of its list. -/
def Wgpeer.ofPeer (d : WgDevice) (p : WgPeer) : Wgpeer :=
  .ofFragment d ⟨p, true, d.peerAllowedips.lists p.id⟩

/-- The attributes of the device. -/
def Wgdevice.setAttrs (d : WgDevice) (device : Wgdevice) : Wgdevice :=
  { device with
    name := d.name.chars
    ifindex := d.ifindex
    listenPort := d.incomingPort
    fwmark := d.fwmark
    transport := transportByte d.transport
    hasTransport := true
    hasPrivateKey := device.hasPrivateKey || d.hasIdentity
    privateKey := if d.hasIdentity then d.staticPrivate else device.privateKey
    hasPublicKey := device.hasPublicKey || d.hasIdentity
    publicKey := if d.hasIdentity then d.staticPublic else device.publicKey }

/-- The device with every peer once, in the order of the list. -/
def Wgdevice.ofDevice (d : WgDevice) : Wgdevice :=
  { Wgdevice.zero.setAttrs d with peers := d.peerList.map (.ofPeer d) }

section Parse

variable {α σ : Type*} {cb : α → σ → MnlCb × σ} {xs ys : List α} {s t : σ}

theorem mnlAttrParse_append (h : mnlAttrParse cb xs s = (.ok, t)) :
    mnlAttrParse cb (xs ++ ys) s = mnlAttrParse cb ys t := by
  induction xs generalizing s with
  | nil =>
    cases h
    rfl
  | cons attr rest ih =>
    rw [List.cons_append, mnlAttrParse]
    rw [mnlAttrParse] at h
    split at h
    · exact ih h
    · next hne => exact absurd h (hne t)

end Parse

variable {d : WgDevice}

/-- What is read of an allowed IP on a list has the length of its family. -/
theorem readNode_bounds (hd : d.Valid) {id : PeerId} {item : Item}
    (h : item ∈ d.peerAllowedips.lists id) :
    (wgAllowedipsReadNode ((d.peerAllowedips.trie item.1).data item.2)).1.length =
        item.1.bits / 8 ∧
      (wgAllowedipsReadNode ((d.peerAllowedips.trie item.1).data item.2)).2 ≤ item.1.bits := by
  obtain ⟨F, R, hF, -⟩ := hd.table
  obtain ⟨f, node⟩ := item
  obtain ⟨e, he, rfl, -⟩ := (hF.lists_mem id f node).mp h
  rw [hF.read_of_mem he]
  exact ⟨by simp [networkBytes], ((hF.fits f).of_mem he).2.1⟩

/-- An allowed IP on a list is read back as it is. -/
theorem parseAllowedips_allowedIpAttrs (hd : d.Valid) {id : PeerId} {item : Item}
    (h : item ∈ d.peerAllowedips.lists id) (peer : Wgpeer) :
    parseAllowedips (allowedIpAttrs d.peerAllowedips item) peer =
      (.ok, { peer with
        allowedips := peer.allowedips ++ [.ofItem d.peerAllowedips item]
        lastAllowedip := true }) := by
  obtain ⟨hlen, hle⟩ := readNode_bounds hd h
  obtain ⟨f, node⟩ := item
  unfold allowedIpAttrs Wgallowedip.ofItem
  dsimp only at hlen hle ⊢
  generalize wgAllowedipsReadNode ((d.peerAllowedips.trie f).data node) = r at hlen hle
  obtain ⟨ip, cidr⟩ := r
  dsimp only at hlen hle ⊢
  cases f with
  | inet =>
    have hmod : cidr % 256 = cidr := Nat.mod_eq_of_lt (Nat.lt_of_le_of_lt hle (by decide))
    have hle : cidr ≤ 32 := hle
    have hlen : ip.length = 4 := hlen
    simp [parseAllowedips, mnlAttrParse, parseAllowedip, Wgallowedip.zero, af, hlen, hmod, hle]
  | inet6 =>
    have hmod : cidr % 256 = cidr := Nat.mod_eq_of_lt (Nat.lt_of_le_of_lt hle (by decide))
    have hle : cidr ≤ 128 := hle
    have hlen : ip.length = 16 := hlen
    simp [parseAllowedips, mnlAttrParse, parseAllowedip, Wgallowedip.zero, af, hlen, hmod, hle]

theorem mnlAttrParse_allowedIpAttrs (hd : d.Valid) {id : PeerId} {items : List Item}
    (h : ∀ item ∈ items, item ∈ d.peerAllowedips.lists id) (peer : Wgpeer) :
    mnlAttrParse parseAllowedips (items.map (allowedIpAttrs d.peerAllowedips)) peer =
      (.ok, { peer with
        allowedips := peer.allowedips ++ items.map (.ofItem d.peerAllowedips)
        lastAllowedip := peer.lastAllowedip || !items.isEmpty }) := by
  induction items generalizing peer with
  | nil => simp [mnlAttrParse]
  | cons item rest ih =>
    rw [List.map_cons, mnlAttrParse,
      parseAllowedips_allowedIpAttrs hd (h item List.mem_cons_self)]
    simp only
    rw [ih fun item hitem => h item (List.mem_cons_of_mem _ hitem)]
    simp

/-- The header of a fragment is read as the fragment without its allowed IPs. -/
theorem mnlAttrParse_peerHeader (d : WgDevice) (f : Fragment WgPeer Item) :
    mnlAttrParse parsePeer (d.peerHeader f.group f.first) .zero =
      (.ok, .ofFragment d { f with items := [] }) := by
  obtain ⟨p, first, items⟩ := f
  cases first with
  | false => simp [WgDevice.peerHeader, mnlAttrParse, parsePeer, Wgpeer.ofFragment, Wgpeer.zero]
  | true =>
    cases h : d.dumpEndpoint p with
    | none =>
      simp [WgDevice.peerHeader, mnlAttrParse, parsePeer, Wgpeer.ofFragment, Wgpeer.zero, h]
    | some addr =>
      simp [WgDevice.peerHeader, mnlAttrParse, parsePeer, Wgpeer.ofFragment, Wgpeer.zero, h]

theorem mnlAttrParse_encode (hd : d.Valid) {f : Fragment WgPeer Item}
    (h : ∀ item ∈ f.items, item ∈ d.peerAllowedips.lists f.group.id) :
    mnlAttrParse parsePeer (encode d f) .zero = (.ok, .ofFragment d f) := by
  rw [encode, mnlAttrParse_append (mnlAttrParse_peerHeader d f)]
  split
  · next hnil =>
    have hitems : f.items = [] := by
      apply List.eq_nil_iff_forall_not_mem.mpr
      intro item hitem
      have := h item hitem
      rw [hnil] at this
      exact absurd this List.not_mem_nil
    rw [mnlAttrParse, ← hitems]
  · simp only [mnlAttrParse, parsePeer, mnlAttrParse_allowedIpAttrs hd h]
    unfold Wgpeer.ofFragment
    cases f.first <;> simp

theorem mnlAttrParse_fragments (hd : d.Valid) {fs : List (Fragment WgPeer Item)}
    (h : ∀ f ∈ fs, ∀ item ∈ f.items, item ∈ d.peerAllowedips.lists f.group.id)
    (device : Wgdevice) :
    mnlAttrParse parsePeers (fs.map (encode d)) device =
      (.ok, { device with peers := device.peers ++ fs.map (.ofFragment d) }) := by
  induction fs generalizing device with
  | nil => simp [mnlAttrParse]
  | cons f rest ih =>
    have hkey : (Wgpeer.ofFragment d f).hasPublicKey = true := by
      unfold Wgpeer.ofFragment
      split <;> rfl
    have hpeer : parsePeers (encode d f) device =
        (.ok, { device with peers := device.peers ++ [.ofFragment d f] }) := by
      simp [parsePeers, mnlAttrParse_encode hd (h f List.mem_cons_self), hkey]
    rw [List.map_cons, mnlAttrParse, hpeer]
    simp only
    rw [ih fun g hg => h g (List.mem_cons_of_mem _ hg)]
    simp

theorem mnlAttrParse_deviceAttrs (d : WgDevice) (device : Wgdevice) :
    mnlAttrParse parseDevice d.deviceAttrs device = (.ok, device.setAttrs d) := by
  have hname : d.name.chars.take 15 = d.name.chars :=
    List.take_of_length_le (Nat.le_of_lt_succ d.name.length_lt)
  have htransport : ¬ 1 < (transportByte d.transport).toNat := by
    cases d.transport <;> decide
  cases hid : d.hasIdentity with
  | false =>
    simp [WgDevice.deviceAttrs, mnlAttrParse, parseDevice, Wgdevice.setAttrs, hname, htransport,
      hid]
  | true =>
    simp [WgDevice.deviceAttrs, mnlAttrParse, parseDevice, Wgdevice.setAttrs, hname, htransport,
      hid]

/-- The attributes have been read; reading them again changes nothing. -/
def Wgdevice.HasAttrs (d : WgDevice) (device : Wgdevice) : Prop := device.setAttrs d = device

theorem Wgdevice.HasAttrs.withPeers {device : Wgdevice} (h : device.HasAttrs d)
    (peers : List Wgpeer) : { device with peers := peers }.HasAttrs d := by
  have hset : { device with peers := peers }.setAttrs d =
      { device.setAttrs d with peers := peers } := rfl
  rw [Wgdevice.HasAttrs, hset, show device.setAttrs d = device from h]

theorem Wgdevice.hasAttrs_setAttrs (d : WgDevice) (device : Wgdevice) :
    (device.setAttrs d).HasAttrs d := by
  cases hid : d.hasIdentity <;> simp [Wgdevice.HasAttrs, Wgdevice.setAttrs, hid]

/-- A message after the first, read into a device that has the attributes. -/
theorem mnlAttrParse_carries (hd : d.Valid) {msg : Message} {fs : List (Fragment WgPeer Item)}
    (hmsg : d.Carries msg fs)
    (h : ∀ f ∈ fs, ∀ item ∈ f.items, item ∈ d.peerAllowedips.lists f.group.id)
    {device : Wgdevice} (hdevice : device.HasAttrs d) :
    mnlAttrParse parseDevice msg device =
      (.ok, { device with peers := device.peers ++ fs.map (.ofFragment d) }) := by
  obtain ⟨attrs, hattrs, hmsg⟩ := hmsg
  have hread : mnlAttrParse parseDevice attrs device = (.ok, device) := by
    rcases hattrs with rfl | rfl
    · rw [mnlAttrParse_deviceAttrs, show device.setAttrs d = device from hdevice]
    · rfl
  rcases hmsg with rfl | ⟨rfl, rfl⟩
  · rw [mnlAttrParse_append hread]
    simp [mnlAttrParse, parseDevice, mnlAttrParse_fragments hd h]
  · simpa using hread

theorem readDevice_carries (hd : d.Valid) {msgs : List Message}
    {fss : List (List (Fragment WgPeer Item))} (hmsgs : List.Forall₂ d.Carries msgs fss)
    (h : ∀ f ∈ fss.flatten, ∀ item ∈ f.items, item ∈ d.peerAllowedips.lists f.group.id)
    {device : Wgdevice} (hdevice : device.HasAttrs d) :
    readDevice msgs device =
      some { device with peers := device.peers ++ fss.flatten.map (.ofFragment d) } := by
  induction hmsgs generalizing device with
  | nil => simp [readDevice]
  | @cons msg fs rest fss hmsg _ ih =>
    rw [List.flatten_cons] at h
    rw [readDevice,
      mnlAttrParse_carries hd hmsg (fun f hf => h f (List.mem_append_left _ hf)) hdevice]
    refine (ih (fun f hf => h f (List.mem_append_right _ hf)) (hdevice.withPeers _)).trans ?_
    simp

/-! ## Merging the fragments -/

theorem publicKey_ofFragment (d : WgDevice) (f : Fragment WgPeer Item) :
    (Wgpeer.ofFragment d f).publicKey = f.group.remoteStatic := by
  unfold Wgpeer.ofFragment
  split <;> rfl

theorem mergePeer_ofFragment (d : WgDevice) (p : WgPeer) (xs : List Item) {ys : List Item}
    (hys : ys ≠ []) :
    mergePeer (.ofFragment d ⟨p, true, xs⟩) (.ofFragment d ⟨p, false, ys⟩) =
      some (.ofFragment d ⟨p, true, xs ++ ys⟩) := by
  cases xs with
  | nil => simp [mergePeer, Wgpeer.ofFragment]
  | cons x xs => simp [mergePeer, Wgpeer.ofFragment, hys]

theorem coalesceFrom_continues {p : WgPeer} {ys : List Item} {fs : List (Fragment WgPeer Item)}
    (h : Continues p ys fs) (xs : List Item) (rest : List Wgpeer) :
    coalesceFrom (.ofFragment d ⟨p, true, xs⟩) (fs.map (.ofFragment d) ++ rest) =
      coalesceFrom (.ofFragment d ⟨p, true, xs ++ ys⟩) rest := by
  induction h generalizing xs with
  | nil => simp
  | @cons zs ys fs hzs _ ih =>
    rw [List.map_cons, List.cons_append, coalesceFrom, if_pos (by simp [publicKey_ofFragment]),
      mergePeer_ofFragment d p xs hzs, Option.bind_some, ih, List.append_assoc]

theorem coalesceFrom_covers {gs : List (WgPeer × List Item)} {fs : List (Fragment WgPeer Item)}
    (h : Covers gs fs) (hkeys : (gs.map fun g => g.1.remoteStatic).Nodup) (p : Wgpeer)
    (hp : p.publicKey ∉ gs.map fun g => g.1.remoteStatic) :
    coalesceFrom p (fs.map (.ofFragment d)) =
      some (p :: gs.map fun g => .ofFragment d ⟨g.1, true, g.2⟩) := by
  induction h generalizing p with
  | nil => rfl
  | @cons g xs ys gs fs fs' hcont _ ih =>
    rw [List.map_cons, List.nodup_cons] at hkeys
    rw [List.map_cons, List.mem_cons, not_or] at hp
    rw [List.map_cons, List.map_append, coalesceFrom,
      if_neg (by simpa [publicKey_ofFragment] using hp.1), coalesceFrom_continues hcont,
      ih hkeys.2 _ (by simpa [publicKey_ofFragment] using hkeys.1)]
    rfl

theorem coalescePeers_covers {gs : List (WgPeer × List Item)} {fs : List (Fragment WgPeer Item)}
    (h : Covers gs fs) (hkeys : (gs.map fun g => g.1.remoteStatic).Nodup) :
    coalescePeers (fs.map (.ofFragment d)) =
      some (gs.map fun g => .ofFragment d ⟨g.1, true, g.2⟩) := by
  cases h with
  | nil => rfl
  | @cons g xs ys gs fs fs' hcont hcov =>
    rw [List.map_cons, List.nodup_cons] at hkeys
    rw [List.map_cons, List.map_append, coalescePeers, coalesceFrom_continues hcont,
      coalesceFrom_covers hcov hkeys.2 _ (by simpa [publicKey_ofFragment] using hkeys.1)]
    rfl

/-- The messages of a dump, whatever the sizes of its buffers, are read as the device: every peer
once, in order, with its allowed IPs once, in order. -/
theorem kernelGetDevice_dump (d : Device) (capacities : Nat → Nat)
    (hroomy : ∀ i, d.Roomy (capacities i)) :
    ∃ fuel msgs, d.dump capacities fuel = some msgs ∧
      kernelGetDevice msgs = some (.ofDevice d.toWgDevice) := by
  have hd := d.valid
  obtain ⟨fuel, msgs, fss, hmsgs, hcarries, hcovers, tail, rest, hfirst⟩ :=
    WgDevice.dump_covers hd hroomy
  refine ⟨fuel, msgs, hmsgs, ?_⟩
  have hitems : ∀ f ∈ fss.flatten, ∀ item ∈ f.items,
      item ∈ d.peerAllowedips.lists f.group.id := by
    intro f hf item hitem
    obtain ⟨g, hg, hgroup, hsub⟩ := hcovers.mem hf
    obtain ⟨p, -, rfl⟩ := List.mem_map.mp hg
    rw [hgroup]
    exact hsub hitem
  -- The first message sets the attributes; reading them again changes nothing.
  have hattrs := Wgdevice.hasAttrs_setAttrs d.toWgDevice .zero
  have hread : readDevice msgs .zero =
      readDevice msgs (Wgdevice.zero.setAttrs d.toWgDevice) := by
    rw [hfirst, readDevice, readDevice, mnlAttrParse_append (mnlAttrParse_deviceAttrs _ _),
      mnlAttrParse_append (mnlAttrParse_deviceAttrs _ _),
      show (Wgdevice.zero.setAttrs d.toWgDevice).setAttrs d.toWgDevice = _ from hattrs]
  have hpeers : coalescePeers (fss.flatten.map (.ofFragment d.toWgDevice)) =
      some (d.peerList.map (.ofPeer d.toWgDevice)) := by
    rw [coalescePeers_covers hcovers, List.map_map]
    · rfl
    · rw [List.map_map]
      exact hd.keys
  rw [kernelGetDevice, hread, readDevice_carries hd hcarries hitems hattrs]
  simp only [Option.bind_eq_bind, Option.bind_some]
  rw [show (Wgdevice.zero.setAttrs d.toWgDevice).peers = [] from rfl, List.nil_append, hpeers]
  rfl

/-- Two peers, one with the allowed IPs 10.0.0.0/8 and 192.168.0.0/16, one with all of IPv6. -/
def twoPeers : Device where
  name := .wg0
  ifindex := 7
  netifRunning := true
  incomingPort := 51820
  fwmark := 0
  transport := .tcp
  hasIdentity := false
  staticPrivate := 0
  staticPublic := 0
  peerList :=
    [⟨0, 1, 0, ⟨.inet 51820 0x0a000001 0 0, .unspec, .unspec, false, 0, 0⟩, 25, ⟨0, 0⟩, 0, 0⟩,
      ⟨1, 2, 3, .unset, 0, ⟨0, 0⟩, 0, 0⟩]
  peerAllowedips :=
    [.insert .inet 0x0a000000#32 8 0, .insert .inet 0xc0a80000#32 16 0,
      .insert .inet6 0#128 0 1].foldl Table.apply .init
  deviceUpdateGen := 0
  nextPeer := 2
  valid :=
    { keys := by decide
      ids := by decide
      ids_lt := by decide
      table := (((Sound.init.apply _).apply _).apply _) }

theorem kernelGetDevice_dump_twoPeers :
    (∀ _i : Nat, twoPeers.Roomy 264) ∧
      ∃ fuel msgs, twoPeers.dump (fun _ => 264) fuel = some msgs ∧
        kernelGetDevice msgs = some (.ofDevice twoPeers.toWgDevice) := by
  have hroomy : twoPeers.Roomy 264 :=
    ⟨by decide +kernel, by decide +kernel, by decide +kernel⟩
  exact ⟨fun _ => hroomy, kernelGetDevice_dump twoPeers (fun _ => 264) fun _ => hroomy⟩

end Tools

end WgTcp
