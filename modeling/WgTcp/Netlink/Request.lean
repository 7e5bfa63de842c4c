import WgTcp.AllowedIps.Traversal
import WgTcp.Foundation.Command
import WgTcp.Foundation.Transition
import WgTcp.Netlink.Device

/-!
# Requests that fail half way

`WG_CMD_SET_DEVICE` with what a failure leaves behind, for messages that do not
parse and for allocations that fail, and with the stream workqueues of the
peers, which `wg_peer_create` allocates if the transport of the device is TCP.
If nothing fails, the configuration is the one of `WgDevice.wgSetDevice`.
-/

namespace WgTcp

namespace Netlink

open AllowedIps

structure Workqueues where
  tcpReadWq : Bool
  tcpWriteWq : Bool
deriving Repr, DecidableEq

/-- A device with the stream workqueues of its peers, by the addresses of the peers. -/
structure LiveDevice extends WgDevice where
  wq : PeerId → Workqueues

/-- The allocations of `wg_peer_create` that succeed. -/
structure PeerMem where
  peerCache : Bool
  endpointCache : Bool
  tcpReadWq : Bool
  tcpWriteWq : Bool

/-- What may fail in a request. -/
structure Faults where
  /-- Whether `nla_parse_nested` accepts a nest. -/
  peerPolicy : List PeerAttr → Bool
  allowedipPolicy : List AllowedIpAttr → Bool
  /-- The allocations for a peer, by its address. -/
  peerMem : PeerId → PeerMem
  /-- The successful allocations for an allowed IP, by the sequence number of the table. -/
  allowedipMem : Nat → Nat

def Faults.none : Faults :=
  ⟨fun _ => true, fun _ => true, fun _ => ⟨true, true, true, true⟩, fun _ => 2⟩

abbrev Request := Command Errno LiveDevice

/-! ## Allowed IPs -/

def setAllowedipWith (mem : Nat) (T : Table) (peer : PeerId) (tb : AllowedIpTb) : Ret × Table :=
  match tb.family, tb.ipaddr, tb.cidrMask with
  | some family, some ip, some cidr =>
      let flags := tb.flags.getD 0
      if family = af .inet ∧ cidr.toNat ≤ 32 ∧ ip.length = 4 then
        if hasFlag flags wgallowedipFRemoveMe then
          T.wgAllowedipsRemoveV4 (swapEndian 32 ip) cidr.toNat peer
        else T.insertWith mem .inet (swapEndian 32 ip) cidr.toNat peer
      else if family = af .inet6 ∧ cidr.toNat ≤ 128 ∧ ip.length = 16 then
        if hasFlag flags wgallowedipFRemoveMe then
          T.wgAllowedipsRemoveV6 (swapEndian 128 ip) cidr.toNat peer
        else T.insertWith mem .inet6 (swapEndian 128 ip) cidr.toNat peer
      else (.einval, T)
  | _, _, _ => (.einval, T)

/-! ## Stages of a request -/

namespace Request

/-- Change the configuration only. -/
def configure (f : WgDevice → WgDevice) : Request Unit :=
  modify fun wg => { wg with toWgDevice := f wg.toWgDevice }

def setAllowedip (faults : Faults) (peer : PeerId) (attrs : List AllowedIpAttr) : Request Unit := do
  if faults.allowedipPolicy attrs then
    let wg ← get
    let T := wg.peerAllowedips
    let r := setAllowedipWith (faults.allowedipMem T.seq) T peer (.parse attrs)
    configure fun d => { d with peerAllowedips := r.2 }
    match r.1 with
    | .ok => pure ()
    | .einval => throw .inval
    | .enomem => throw .nomem
  else throw .inval

/-- The workqueues of a new peer. -/
def newWorkqueues : Transport → Workqueues
  | .udp => ⟨false, false⟩
  | .tcp => ⟨true, true⟩

def wgPeerCreate (faults : Faults) (publicKey : Key) (presharedKey : Option Key) :
    Request PeerId := do
  let wg ← get
  let mem := faults.peerMem wg.nextPeer
  if WgDevice.maxPeersPerDevice ≤ wg.peerList.length then throw .nomem
  else if !mem.peerCache || !mem.endpointCache then throw .nomem
  -- The first queue is destroyed if there is no memory for the second one.
  else if wg.transport = .tcp && (!mem.tcpReadWq || !mem.tcpWriteWq) then throw .nomem
  else
    modify fun wg =>
      { wg with
        peerList := wg.peerList ++
          [⟨wg.nextPeer, publicKey, presharedKey.getD 0, .unset, 0, ⟨0, 0⟩, 0, 0⟩]
        nextPeer := wg.nextPeer + 1
        wq := Function.update wg.wq wg.nextPeer (newWorkqueues wg.transport) }
    return wg.nextPeer

/-- `wg_peer_remove`; `peer_make_dead` destroys the workqueues. -/
def wgPeerRemove (id : PeerId) : Request Unit :=
  modify fun wg =>
    { toWgDevice := wg.toWgDevice.wgPeerRemove id
      wq := Function.update wg.wq id ⟨false, false⟩ }

def wgPeerRemoveAll : Request Unit :=
  modify fun wg =>
    { toWgDevice := wg.toWgDevice.wgPeerRemoveAll
      wq := fun id => if id ∈ wg.peerList.map WgPeer.id then ⟨false, false⟩ else wg.wq id }

def updatePeer (faults : Faults) (id : PeerId) (replaceAllowedips : Bool) (tb : PeerTb) :
    Request Unit := do
  configure fun d => d.setPeerHeader id tb
  configure fun d =>
    if replaceAllowedips then
      { d with peerAllowedips := d.peerAllowedips.wgAllowedipsRemoveByPeer id }
    else d
  (tb.allowedips.getD []).forM (setAllowedip faults id)
  configure fun d => d.setPeerKeepalive id tb

def setPeer (faults : Faults) (attrs : List PeerAttr) : Request Unit :=
  if faults.peerPolicy attrs then
    let tb := PeerTb.parse attrs
    match tb.publicKey with
    | none => throw .inval
    | some key =>
        let flags := tb.flags.getD 0
        if hasFlag flags (~~~wgpeerFAll) then throw .opnotsupp
        else if tb.protocolVersion.any (· != 1) then throw .pfnosupport
        else do
          let wg ← get
          match wg.lookupPeer key with
          | some peer =>
              if hasFlag flags wgpeerFRemoveMe then wgPeerRemove peer.id
              else updatePeer faults peer.id (hasFlag flags wgpeerFReplaceAllowedips) tb
          | none =>
              if hasFlag flags (wgpeerFRemoveMe ||| wgpeerFUpdateOnly) then pure ()
              else if wg.hasIdentity && key == wg.staticPublic then pure ()
              else do
                let id ← wgPeerCreate faults key tb.presharedKey
                updatePeer faults id false tb
  else throw .inval

/-- The checks before a change of the transport leave the device as it is. -/
def setTransport (flags : BitVec 32) (transport : BitVec 8) : Request Unit := do
  let wg ← get
  match wg.toWgDevice.setTransport flags transport with
  | .ok d => configure fun _ => d
  | .error e => throw e

/-- `set_port`; a port that cannot be bound leaves the endpoints without their sources. -/
def setPort (env : Env) (port : UInt16) : Request Unit := do
  let wg ← get
  if wg.incomingPort = port then pure ()
  else if wg.transport = .tcp ∧ wg.netifRunning = true then throw .busy
  else
    configure WgDevice.clearEndpointSrcs
    if wg.netifRunning then
      match env.wgSocketInit wg.clearEndpointSrcs port with
      | .ok port => configure fun d => { d with incomingPort := port }
      | .error e => throw e
    else configure fun d => { d with incomingPort := port }

def setPrivateKey (env : Env) (key : Key) : Request Unit := do
  let wg ← get
  if wg.staticPrivate = key then pure ()
  else
    let (publicKey, generated) := env.curve25519GeneratePublic 0 key
    match if generated then wg.lookupPeer publicKey else none with
    | some peer => wgPeerRemove peer.id
    | none => pure ()
    configure fun d =>
      let (staticPublic, hasIdentity) := env.curve25519GeneratePublic d.staticPublic key
      { d with
        staticPrivate := env.curve25519ClampSecret key
        staticPublic := staticPublic
        hasIdentity := hasIdentity }

/-- The part of `wg_set_device` between the transport and the peers. -/
def setAttrs (env : Env) (tb : DeviceTb) : Request Unit := do
  configure fun d => { d with deviceUpdateGen := d.deviceUpdateGen + 1 }
  configure fun d => tb.fwmark.elim d d.setFwmark
  tb.listenPort.elim (pure ()) (setPort env)
  if hasFlag (tb.flags.getD 0) wgdeviceFReplacePeers then wgPeerRemoveAll
  tb.privateKey.elim (pure ()) (setPrivateKey env)

def wgSetDevice (env : Env) (faults : Faults) (msg : Message) : Request Unit := do
  let tb := DeviceTb.parse msg
  let wg ← get
  match wg.lookupInterface tb with
  | .error e => throw e
  | .ok _ =>
      let flags := tb.flags.getD 0
      if hasFlag flags (~~~wgdeviceFAll) then throw .opnotsupp
      else if (tb.listenPort.isSome || tb.fwmark.isSome || tb.transport.isSome) &&
          !env.capNetAdmin then
        throw .perm
      else
        tb.transport.elim (pure ()) (setTransport flags)
        setAttrs env tb
        (tb.peers.getD []).forM (setPeer faults)

end Request

/-! ## Runs -/

namespace LiveDevice

/-- `wg_newlink`. -/
def wgNewlink (name : IfName) (ifindex : BitVec 32) : LiveDevice where
  name := name
  ifindex := ifindex
  netifRunning := false
  incomingPort := 0
  fwmark := 0
  transport := .udp
  hasIdentity := false
  staticPrivate := 0
  staticPublic := 0
  peerList := []
  peerAllowedips := .init
  deviceUpdateGen := 0
  nextPeer := 0
  wq _ := ⟨false, false⟩

inductive Action where
  | setDevice (env : Env) (faults : Faults) (msg : Message)
  /-- `wg_open`, with the port that is bound if it succeeds. -/
  | up (port : Except Errno UInt16)
  /-- `wg_stop`. -/
  | down

/-- All steps hold the lock of the network configuration. -/
def step (wg : LiveDevice) : Action → Option LiveDevice
  | .setDevice env faults msg => some (Command.exec (Request.wgSetDevice env faults msg) wg).2
  | .up port =>
      if wg.netifRunning then none
      else
        match port with
        | .ok port => some { wg with netifRunning := true, incomingPort := port }
        | .error _ => some wg
  | .down => if wg.netifRunning then some { wg with netifRunning := false } else none

end LiveDevice

/-! ## Requests without faults -/

namespace Request

open Command

variable {c : Request Unit} {f g : WgDevice → Except Errno WgDevice}

/-- The configuration that a request leaves, if it succeeds. -/
def config (c : Request Unit) (wg : LiveDevice) : Except Errno WgDevice :=
  match exec c wg with
  | (.ok _, wg') => .ok wg'.toWgDevice
  | (.error e, _) => .error e

/-- A request does to the configuration what the function says. -/
def Refines (c : Request Unit) (f : WgDevice → Except Errno WgDevice) : Prop :=
  ∀ wg, config c wg = f wg.toWgDevice

theorem config_bind (c : Request Unit) (k : Unit → Request Unit) (wg : LiveDevice) :
    config (c >>= k) wg =
      match exec c wg with
      | (.ok _, wg') => config (k ()) wg'
      | (.error e, _) => .error e := by
  rw [config, exec_bind]
  rcases exec c wg with ⟨_ | _, _⟩ <;> rfl

theorem config_get (k : LiveDevice → Request Unit) (wg : LiveDevice) :
    config (get >>= k) wg = config (k wg) wg := rfl

theorem config_configure (f : WgDevice → WgDevice) (k : Unit → Request Unit) (wg : LiveDevice) :
    config (configure f >>= k) wg = config (k ()) { wg with toWgDevice := f wg.toWgDevice } := rfl

theorem Refines.bind {k : Unit → Request Unit} (hc : Refines c f)
    (hk : ∀ u, Refines (k u) g) : Refines (c >>= k) fun d => f d >>= g := by
  intro wg
  have h := hc wg
  rw [config] at h
  simp only [config_bind, ← h]
  rcases exec c wg with ⟨_ | _, wg'⟩
  · rfl
  · exact hk () wg'

theorem Refines.configure (f : WgDevice → WgDevice) : Refines (configure f) fun d => .ok (f d) :=
  fun _ => rfl

theorem Refines.pure : Refines (pure ()) .ok := fun _ => rfl

/-- The loop over the nests of a message. -/
theorem Refines.forM {α : Type} {l : List α} {c : α → Request Unit}
    {f : WgDevice → α → Except Errno WgDevice} (h : ∀ a ∈ l, Refines (c a) fun d => f d a) :
    Refines (l.forM c) fun d => l.foldlM f d := by
  induction l with
  | nil => exact .pure
  | cons a rest ih =>
    simp only [List.foldlM_cons]
    exact (h a List.mem_cons_self).bind fun _ => ih fun b hb => h b (List.mem_cons_of_mem _ hb)

theorem setAllowedip_eq_ret (T : Table) (peer : PeerId) (tb : AllowedIpTb) :
    Netlink.setAllowedip T peer tb = ret (setAllowedipWith 2 T peer tb) := by
  unfold Netlink.setAllowedip setAllowedipWith
  rcases tb.family with _ | family
  · rfl
  rcases tb.ipaddr with _ | ip
  · rfl
  rcases tb.cidrMask with _ | cidr
  · rfl
  dsimp only
  split_ifs <;> rfl

theorem Refines.setAllowedip (peer : PeerId) (attrs : List AllowedIpAttr) :
    Refines (setAllowedip .none peer attrs) fun d =>
      (Netlink.setAllowedip d.peerAllowedips peer (.parse attrs)).map fun T =>
        { d with peerAllowedips := T } := by
  intro wg
  simp only [setAllowedip_eq_ret, Request.setAllowedip, Faults.none, if_true, config_get,
    config_configure]
  rcases setAllowedipWith 2 wg.peerAllowedips peer (.parse attrs) with ⟨_ | _ | _, T⟩ <;> rfl

theorem foldlM_setAllowedip (d : WgDevice) (id : PeerId) (nests : List (List AllowedIpAttr)) :
    (nests.foldlM (fun d attrs =>
        (Netlink.setAllowedip d.peerAllowedips id (.parse attrs)).map fun T =>
          { d with peerAllowedips := T }) d) =
      (WgDevice.setAllowedips d.peerAllowedips id nests).map fun T =>
        { d with peerAllowedips := T } := by
  induction nests generalizing d with
  | nil => rfl
  | cons attrs rest ih =>
    simp only [WgDevice.setAllowedips, List.foldlM_cons] at ih ⊢
    cases h : Netlink.setAllowedip d.peerAllowedips id (.parse attrs) with
    | error e => rfl
    | ok T => exact ih { d with peerAllowedips := T }

theorem Refines.updatePeer (id : PeerId) (replace : Bool) (tb : PeerTb) :
    Refines (updatePeer .none id replace tb) fun d => d.updatePeer id replace tb := by
  have hloop : Refines ((tb.allowedips.getD []).forM (Request.setAllowedip .none id)) fun d =>
      (WgDevice.setAllowedips d.peerAllowedips id (tb.allowedips.getD [])).map fun T =>
        { d with peerAllowedips := T } := by
    intro wg
    dsimp only
    rw [← foldlM_setAllowedip]
    exact Refines.forM (fun attrs _ => Refines.setAllowedip id attrs) wg
  intro wg
  simp only [Request.updatePeer, config_configure, WgDevice.updatePeer]
  rw [hloop.bind fun _ => .configure fun d => d.setPeerKeepalive id tb]
  generalize wg.setPeerHeader id tb = d
  cases replace with
  | false =>
    simp only [Bool.false_eq_true, if_false]
    cases WgDevice.setAllowedips d.peerAllowedips id (tb.allowedips.getD []) <;> rfl
  | true =>
    simp only [if_true]
    cases WgDevice.setAllowedips (d.peerAllowedips.wgAllowedipsRemoveByPeer id) id
      (tb.allowedips.getD []) <;> rfl

/-- The creation of a peer and what follows. -/
theorem config_wgPeerCreate (key : Key) (psk : Option Key) (k : PeerId → Request Unit)
    {f : WgDevice → Except Errno WgDevice} (wg : LiveDevice) (hk : Refines (k wg.nextPeer) f) :
    config (wgPeerCreate .none key psk >>= k) wg = wg.wgPeerCreate key psk >>= f := by
  simp only [config, exec_bind, Request.wgPeerCreate, exec_get, Faults.none, Bool.not_true,
    Bool.or_self, Bool.false_eq_true, if_false, Bool.and_false, WgDevice.wgPeerCreate]
  split_ifs
  · rfl
  · exact hk _

theorem Refines.setPeer (attrs : List PeerAttr) :
    Refines (setPeer .none attrs) fun d => d.setPeer (.parse attrs) := by
  intro wg
  have hpolicy : Faults.none.peerPolicy attrs = true := rfl
  simp only [Request.setPeer, WgDevice.setPeer, hpolicy, if_true]
  cases hkey : (PeerTb.parse attrs).publicKey with
  | none => rfl
  | some key =>
    by_cases hflags : hasFlag ((PeerTb.parse attrs).flags.getD 0) (~~~wgpeerFAll) = true
    · simp only [if_pos hflags]
      rfl
    by_cases hversion : (PeerTb.parse attrs).protocolVersion.any (· != 1) = true
    · simp only [if_neg hflags, if_pos hversion]
      rfl
    · simp only [if_neg hflags, if_neg hversion, config_get]
      cases wg.lookupPeer key with
      | some peer =>
        dsimp only
        split_ifs
        · rfl
        · exact Refines.updatePeer _ _ _ wg
      | none =>
        dsimp only
        split_ifs
        · rfl
        · rfl
        · exact config_wgPeerCreate key _ _ wg (.updatePeer _ _ _)

theorem Refines.setPort (env : Env) (port : UInt16) :
    Refines (setPort env port) fun d => d.setPort env port := by
  intro wg
  have hkeep : wg.clearEndpointSrcs.netifRunning = wg.netifRunning := rfl
  simp only [Request.setPort, config_get, WgDevice.setPort, hkeep]
  split_ifs with hsame hbusy hrunning
  · rfl
  · rfl
  · rw [config_configure]
    cases env.wgSocketInit wg.clearEndpointSrcs port with
    | error e => rfl
    | ok port => rfl
  · rfl

theorem Refines.setPrivateKey (env : Env) (key : Key) :
    Refines (setPrivateKey env key) fun d => .ok (d.setPrivateKey env key) := by
  intro wg
  simp only [Request.setPrivateKey, config_get, WgDevice.setPrivateKey]
  by_cases hsame : wg.staticPrivate = key
  · rw [if_pos hsame, if_pos hsame]
    rfl
  · rw [if_neg hsame, if_neg hsame]
    rcases if (env.curve25519GeneratePublic 0 key).2 = true then
      wg.lookupPeer (env.curve25519GeneratePublic 0 key).1 else none with _ | peer
    · rfl
    · rfl

/-- The part of a message between the transport and the peers. -/
def configAttrs (env : Env) (tb : DeviceTb) (d : WgDevice) : Except Errno WgDevice :=
  let d := { d with deviceUpdateGen := d.deviceUpdateGen + 1 }
  let d := tb.fwmark.elim d d.setFwmark
  tb.listenPort.elim (.ok d) (d.setPort env) >>= fun d =>
    let d := if hasFlag (tb.flags.getD 0) wgdeviceFReplacePeers then d.wgPeerRemoveAll else d
    .ok (tb.privateKey.elim d (d.setPrivateKey env))

theorem setAttrs_eq (env : Env) (tb : DeviceTb) (d : WgDevice) :
    d.setAttrs env tb =
      if hasFlag (tb.flags.getD 0) (~~~wgdeviceFAll) then .error .opnotsupp
      else if (tb.listenPort.isSome || tb.fwmark.isSome || tb.transport.isSome) &&
          !env.capNetAdmin then
        .error .perm
      else tb.transport.elim (.ok d) (d.setTransport (tb.flags.getD 0)) >>= configAttrs env tb := by
  unfold WgDevice.setAttrs
  dsimp only
  split
  · rfl
  split
  · rfl
  · rfl

theorem Refines.setAttrs (env : Env) (tb : DeviceTb) :
    Refines (setAttrs env tb) (configAttrs env tb) := by
  have hport : Refines (tb.listenPort.elim (Pure.pure ()) (Request.setPort env)) fun d =>
      tb.listenPort.elim (.ok d) (d.setPort env) := by
    cases tb.listenPort with
    | none => exact .pure
    | some port => exact .setPort env port
  have hkey : Refines (tb.privateKey.elim (Pure.pure ()) (Request.setPrivateKey env)) fun d =>
      .ok (tb.privateKey.elim d (d.setPrivateKey env)) := by
    cases tb.privateKey with
    | none => exact .pure
    | some key => exact .setPrivateKey env key
  have hremove : Refines Request.wgPeerRemoveAll fun d => .ok d.wgPeerRemoveAll := fun _ => rfl
  intro wg
  simp only [Request.setAttrs, config_configure, configAttrs]
  by_cases hreplace : hasFlag (tb.flags.getD 0) wgdeviceFReplacePeers = true
  · simp only [if_pos hreplace]
    have hboth : Refines (Request.wgPeerRemoveAll >>= fun _ => tb.privateKey.elim (Pure.pure ())
        (Request.setPrivateKey env)) fun d =>
          .ok (tb.privateKey.elim d.wgPeerRemoveAll (d.wgPeerRemoveAll.setPrivateKey env)) :=
      hremove.bind fun _ => hkey
    exact hport.bind (fun _ => hboth) _
  · simp only [if_neg hreplace]
    exact hport.bind (fun _ => hkey) _

/-- If no allocation fails and all nests parse, a request does to the configuration what the
function of the configuration says. -/
theorem wgSetDevice_refines (env : Env) (msg : Message) :
    Refines (wgSetDevice env .none msg) fun d => d.wgSetDevice env msg := by
  have htransport (flags : BitVec 32) (transport : Option (BitVec 8)) :
      Refines (transport.elim (Pure.pure ()) (setTransport flags)) fun d =>
        transport.elim (.ok d) (d.setTransport flags) := by
    cases transport with
    | none => exact .pure
    | some transport =>
      intro wg
      simp only [Option.elim_some, setTransport, config_get]
      cases wg.toWgDevice.setTransport flags transport with
      | error e => rfl
      | ok d => rfl
  have hpeers (nests : List (List PeerAttr)) :
      Refines (nests.forM (setPeer .none)) fun d => d.setPeers nests :=
    .forM fun attrs _ => .setPeer attrs
  intro wg
  simp only [wgSetDevice, config_get, WgDevice.wgSetDevice, setAttrs_eq]
  cases wg.lookupInterface (DeviceTb.parse msg) with
  | error e => rfl
  | ok _ =>
    have hrest :=
      (htransport ((DeviceTb.parse msg).flags.getD 0) (DeviceTb.parse msg).transport).bind fun _ =>
        (Refines.setAttrs env (DeviceTb.parse msg)).bind fun _ =>
          hpeers ((DeviceTb.parse msg).peers.getD [])
    by_cases hflags : hasFlag ((DeviceTb.parse msg).flags.getD 0) (~~~wgdeviceFAll) = true
    · simp only [if_pos hflags]
      rfl
    by_cases hcap : (((DeviceTb.parse msg).listenPort.isSome ||
        (DeviceTb.parse msg).fwmark.isSome || (DeviceTb.parse msg).transport.isSome) &&
        !env.capNetAdmin) = true
    · simp only [if_neg hflags, if_pos hcap]
      rfl
    · simp only [if_neg hflags, if_neg hcap]
      refine (hrest wg).trans ?_
      simp only [← bind_assoc]
      rfl

end Request

end Netlink

end WgTcp
