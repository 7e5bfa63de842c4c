import WgTcp.Netlink.Split

/-!
# Split configuration is atomic configuration

To the kernel a peer in two fragments is as good as the peer in one: the second
fragment finds the peer that the first one left, and adds its allowed IPs
behind those of the first. So the messages of `kernel_set_device` leave the
configuration that one message without a bound leaves, up to the number of
updates.
-/

namespace WgTcp

namespace Tools

open AllowedIps Netlink Fragments

/-! ## Fragments as the kernel reads them -/

/-- The attributes of a fragment by type. -/
def fragmentTb (f : Fragment Wgpeer Wgallowedip) : PeerTb where
  publicKey := some f.group.publicKey
  presharedKey :=
    if f.first && f.group.hasPresharedKey then some f.group.presharedKey else none
  flags := some (peerSetFlags f.group f.first)
  endpoint := if f.first then f.group.endpoint else none
  persistentKeepaliveInterval :=
    if f.first && f.group.hasPersistentKeepaliveInterval then
      some f.group.persistentKeepaliveInterval
    else none
  allowedips := some (f.items.map allowedIpSetAttrs)
  protocolVersion := none

/-- Tables that `set_peer` does not tell apart: no flags are zero flags. -/
structure SameTb (tb tb' : PeerTb) : Prop where
  publicKey : tb.publicKey = tb'.publicKey
  presharedKey : tb.presharedKey = tb'.presharedKey
  flags : tb.flags.getD 0 = tb'.flags.getD 0
  endpoint : tb.endpoint = tb'.endpoint
  keepalive : tb.persistentKeepaliveInterval = tb'.persistentKeepaliveInterval
  allowedips : tb.allowedips.getD [] = tb'.allowedips.getD []
  protocolVersion : tb.protocolVersion = tb'.protocolVersion

theorem SameTb.updatePeer_eq {tb tb' : PeerTb} (h : SameTb tb tb') (d : WgDevice) (id : PeerId)
    (replace : Bool) : d.updatePeer id replace tb = d.updatePeer id replace tb' := by
  simp only [WgDevice.updatePeer, WgDevice.setPeerHeader, WgDevice.setPeerKeepalive,
    h.presharedKey, h.endpoint, h.keepalive, h.allowedips]

theorem SameTb.setPeer_eq {tb tb' : PeerTb} (h : SameTb tb tb') (d : WgDevice) :
    d.setPeer tb = d.setPeer tb' := by
  simp only [WgDevice.setPeer, h.publicKey, h.flags, h.protocolVersion, h.presharedKey,
    h.updatePeer_eq]

theorem foldl_attrIf {α β : Type*} (f : β → α → β) (b : Bool) (a : α) (x : β) :
    (attrIf b a).foldl f x = if b then f x a else x := by
  cases b <;> rfl

theorem parse_header (p : Wgpeer) (first : Bool) :
    PeerTb.parse (peerSetHeader p first) =
      { fragmentTb ⟨p, first, []⟩ with
        flags := if peerSetFlags p first != 0 then some (peerSetFlags p first) else none
        allowedips := none } := by
  simp only [PeerTb.parse, peerSetHeader, List.foldl_cons, List.foldl_append, foldl_attrIf,
    fragmentTb]
  generalize (peerSetFlags p first != 0) = b
  cases first <;> cases p.hasPresharedKey <;> cases p.endpoint <;>
    cases p.hasPersistentKeepaliveInterval <;> cases b <;> rfl

theorem getD_flags (flags : BitVec 32) :
    (if flags != 0 then some flags else none).getD 0 = flags := by
  cases h : flags != 0 with
  | true => rfl
  | false => exact (bne_eq_false_iff_eq.mp h).symm

theorem Encodes.sameTb {f : Fragment Wgpeer Wgallowedip} {nest : List PeerAttr}
    (h : Encodes f nest) : SameTb (.parse nest) (fragmentTb f) := by
  rcases h with rfl | ⟨rfl, hnil⟩
  · rw [PeerTb.parse, List.foldl_append, ← PeerTb.parse, parse_header]
    exact ⟨rfl, rfl, getD_flags _, rfl, rfl, rfl, rfl⟩
  · rw [parse_header]
    exact ⟨rfl, rfl, getD_flags _, rfl, rfl, by simp [fragmentTb, hnil], rfl⟩

/-- `set_peer` on a fragment. -/
def applyFragment (d : WgDevice) (f : Fragment Wgpeer Wgallowedip) : Except Errno WgDevice :=
  d.setPeer (fragmentTb f)

theorem setPeers_eq {fs : List (Fragment Wgpeer Wgallowedip)} {nests : List (List PeerAttr)}
    (h : List.Forall₂ Encodes fs nests) (d : WgDevice) :
    d.setPeers nests = fs.foldlM applyFragment d := by
  induction h generalizing d with
  | nil => rfl
  | cons hhead _ ih =>
    rw [WgDevice.setPeers, List.foldlM_cons, List.foldlM_cons, hhead.sameTb.setPeer_eq]
    exact bind_congr ih

/-! ## Two fragments are one -/

variable {d d' : WgDevice} {p : Wgpeer} {xs ys : List Wgallowedip}

theorem setAllowedips_append (T : Table) (id : PeerId) (xs ys : List (List AllowedIpAttr)) :
    WgDevice.setAllowedips T id (xs ++ ys) =
      WgDevice.setAllowedips T id xs >>= fun T => WgDevice.setAllowedips T id ys := by
  simp only [WgDevice.setAllowedips, List.foldlM_append]

/-- The key and the address of a peer are not changed. -/
theorem lookupPeer_modifyPeer (d : WgDevice) (id : PeerId) {f : WgPeer → WgPeer}
    (hkey : ∀ p, (f p).remoteStatic = p.remoteStatic) (hid : ∀ p, (f p).id = p.id) (key : Key) :
    ((d.modifyPeer id f).lookupPeer key).map WgPeer.id = (d.lookupPeer key).map WgPeer.id := by
  have hkeep (p : WgPeer) : (if p.id = id then f p else p).remoteStatic = p.remoteStatic ∧
      (if p.id = id then f p else p).id = p.id := by
    split
    · exact ⟨hkey p, hid p⟩
    · exact ⟨rfl, rfl⟩
  simp only [WgDevice.lookupPeer, WgDevice.modifyPeer, List.find?_map, Option.map_map]
  congr 1
  · funext p
    exact (hkeep p).2
  · congr 1
    funext p
    simp only [Function.comp_apply, (hkeep p).1]

theorem lookupPeer_setPeerHeader (d : WgDevice) (id : PeerId) (tb : PeerTb) (key : Key) :
    ((d.setPeerHeader id tb).lookupPeer key).map WgPeer.id =
      (d.lookupPeer key).map WgPeer.id := by
  have hendpoint (d : WgDevice) (addr : SockAddr) :
      ((d.setPeerEndpointConfigured id addr).lookupPeer key).map WgPeer.id =
        (d.lookupPeer key).map WgPeer.id := by
    refine lookupPeer_modifyPeer d id ?_ ?_ key <;> exact fun _ => rfl
  have hpsk (psk : Key) :
      ((d.modifyPeer id fun p => { p with presharedKey := psk }).lookupPeer key).map WgPeer.id =
        (d.lookupPeer key).map WgPeer.id := by
    refine lookupPeer_modifyPeer d id ?_ ?_ key <;> exact fun _ => rfl
  unfold WgDevice.setPeerHeader
  cases tb.presharedKey with
  | none =>
    cases tb.endpoint with
    | none => rfl
    | some addr => exact hendpoint d addr
  | some psk =>
    cases tb.endpoint with
    | none => exact hpsk psk
    | some addr => exact (hendpoint _ addr).trans (hpsk psk)

theorem lookupPeer_setPeerKeepalive (d : WgDevice) (id : PeerId) (tb : PeerTb) (key : Key) :
    ((d.setPeerKeepalive id tb).lookupPeer key).map WgPeer.id =
      (d.lookupPeer key).map WgPeer.id := by
  unfold WgDevice.setPeerKeepalive
  split
  · refine lookupPeer_modifyPeer d id ?_ ?_ key <;> exact fun _ => rfl
  · rfl

theorem lookupPeer_updatePeer {id : PeerId} {replace : Bool} {tb : PeerTb}
    (h : d.updatePeer id replace tb = .ok d') (key : Key) :
    (d'.lookupPeer key).map WgPeer.id = (d.lookupPeer key).map WgPeer.id := by
  obtain ⟨T, -, hd'⟩ := bind_eq_ok.mp h
  cases hd'
  rw [lookupPeer_setPeerKeepalive]
  exact lookupPeer_setPeerHeader d id tb key

/-- The second of two updates only adds allowed IPs. -/
theorem updatePeer_append (d : WgDevice) (id : PeerId) (replace : Bool) (p : Wgpeer)
    (xs ys : List Wgallowedip) :
    (d.updatePeer id replace (fragmentTb ⟨p, true, xs⟩) >>= fun d =>
        d.updatePeer id false (fragmentTb ⟨p, false, ys⟩)) =
      d.updatePeer id replace (fragmentTb ⟨p, true, xs ++ ys⟩) := by
  have hheader : d.setPeerHeader id (fragmentTb ⟨p, true, xs ++ ys⟩) =
      d.setPeerHeader id (fragmentTb ⟨p, true, xs⟩) := rfl
  have hcommute (d : WgDevice) (T : Table) :
      { d.setPeerKeepalive id (fragmentTb ⟨p, true, xs⟩) with peerAllowedips := T } =
        { d with peerAllowedips := T }.setPeerKeepalive id (fragmentTb ⟨p, true, xs ++ ys⟩) := by
    unfold WgDevice.setPeerKeepalive
    cases h : p.hasPersistentKeepaliveInterval <;> simp [fragmentTb, h, WgDevice.modifyPeer]
  have htable (d : WgDevice) :
      (d.setPeerKeepalive id (fragmentTb ⟨p, true, xs⟩)).peerAllowedips = d.peerAllowedips := by
    unfold WgDevice.setPeerKeepalive
    split <;> rfl
  have hnext (d : WgDevice) : d.updatePeer id false (fragmentTb ⟨p, false, ys⟩) =
      WgDevice.setAllowedips d.peerAllowedips id (ys.map allowedIpSetAttrs) >>= fun T =>
        .ok { d with peerAllowedips := T } := rfl
  have hall {T : Table} : WgDevice.setAllowedips T id ((xs ++ ys).map allowedIpSetAttrs) =
      WgDevice.setAllowedips T id (xs.map allowedIpSetAttrs) >>= fun T =>
        WgDevice.setAllowedips T id (ys.map allowedIpSetAttrs) := by
    rw [List.map_append, setAllowedips_append]
  unfold WgDevice.updatePeer at hnext ⊢
  simp only [hheader]
  generalize d.setPeerHeader id (fragmentTb ⟨p, true, xs⟩) = d
  generalize (if replace then d.peerAllowedips.wgAllowedipsRemoveByPeer id
    else d.peerAllowedips) = T
  simp only [fragmentTb, Option.getD_some, hall, bind_assoc] at hnext hcommute htable ⊢
  refine bind_congr fun T₁ => ?_
  rw [pure_bind, hnext, htable]
  refine bind_congr fun T₂ => ?_
  rw [hcommute]
  rfl

/-! ### Flags -/

theorem hasFlag_others (p : Wgpeer) (first : Bool) :
    hasFlag (peerSetFlags p first) (~~~wgpeerFAll) = false := by
  unfold peerSetFlags
  cases first <;> cases p.removeMe <;> cases p.replaceAllowedips <;> decide

theorem hasFlag_removeMe (p : Wgpeer) (first : Bool) :
    hasFlag (peerSetFlags p first) wgpeerFRemoveMe = p.removeMe := by
  unfold peerSetFlags
  cases first <;> cases p.removeMe <;> cases p.replaceAllowedips <;> decide

theorem hasFlag_removeMe_or (p : Wgpeer) (first : Bool) :
    hasFlag (peerSetFlags p first) (wgpeerFRemoveMe ||| wgpeerFUpdateOnly) = p.removeMe := by
  unfold peerSetFlags
  cases first <;> cases p.removeMe <;> cases p.replaceAllowedips <;> decide

theorem hasFlag_replaceAllowedips (p : Wgpeer) (first : Bool) :
    hasFlag (peerSetFlags p first) wgpeerFReplaceAllowedips = (first && p.replaceAllowedips) := by
  unfold peerSetFlags
  cases first <;> cases p.removeMe <;> cases p.replaceAllowedips <;> decide

/-- `set_peer` on a fragment, by what it finds. -/
theorem applyFragment_eq (d : WgDevice) (f : Fragment Wgpeer Wgallowedip) :
    applyFragment d f =
      match d.lookupPeer f.group.publicKey with
      | some peer =>
          if f.group.removeMe then .ok (d.wgPeerRemove peer.id)
          else d.updatePeer peer.id (f.first && f.group.replaceAllowedips) (fragmentTb f)
      | none =>
          if f.group.removeMe then .ok d
          else if d.hasIdentity && f.group.publicKey == d.staticPublic then .ok d
          else d.wgPeerCreate f.group.publicKey (fragmentTb f).presharedKey >>= fun d' =>
            d'.updatePeer d.nextPeer false (fragmentTb f) := by
  have hversion : (fragmentTb f).protocolVersion.any (· != 1) = false := rfl
  have hkey : (fragmentTb f).publicKey = some f.group.publicKey := rfl
  have hflags : (fragmentTb f).flags.getD 0 = peerSetFlags f.group f.first := rfl
  cases hfound : d.lookupPeer f.group.publicKey <;>
    simp only [applyFragment, WgDevice.setPeer, hkey, hflags, hversion, hfound, hasFlag_others,
      hasFlag_removeMe, hasFlag_removeMe_or, hasFlag_replaceAllowedips, Bool.false_eq_true,
      if_false]

/-- A fragment of a peer that the device has. -/
theorem applyFragment_found {peer : WgPeer} {f : Fragment Wgpeer Wgallowedip}
    (h : d.lookupPeer f.group.publicKey = some peer) (hremove : f.group.removeMe = false) :
    applyFragment d f =
      d.updatePeer peer.id (f.first && f.group.replaceAllowedips) (fragmentTb f) := by
  rw [applyFragment_eq, h]
  simp [hremove]

theorem lookupPeer_wgPeerRemove (hd : d.Valid) {key : Key} {peer : WgPeer}
    (h : d.lookupPeer key = some peer) : (d.wgPeerRemove peer.id).lookupPeer key = none := by
  have hmem : peer ∈ d.peerList := List.mem_of_find?_eq_some h
  have hkey : peer.remoteStatic = key := by simpa using List.find?_some h
  rw [WgDevice.lookupPeer, List.find?_eq_none]
  intro q hq
  simp only [WgDevice.wgPeerRemove, List.mem_filter, bne_iff_ne] at hq
  simp only [beq_iff_eq]
  rintro rfl
  exact hq.2 (congrArg WgPeer.id (List.inj_on_of_nodup_map hd.keys hq.1 hmem hkey.symm))

theorem lookupPeer_wgPeerCreate {key : Key} {psk : Option Key} (h : d.lookupPeer key = none)
    (hcreate : d.wgPeerCreate key psk = .ok d') :
    (d'.lookupPeer key).map WgPeer.id = some d.nextPeer := by
  unfold WgDevice.wgPeerCreate at hcreate
  split at hcreate
  · cases hcreate
  · cases hcreate
    rw [WgDevice.lookupPeer] at h
    simp [WgDevice.lookupPeer, List.find?_append, h]

/-- To the kernel, a peer in two fragments is as good as in one. -/
theorem applyFragment_append (hd : d.Valid) (p : Wgpeer) (xs ys : List Wgallowedip) :
    (applyFragment d ⟨p, true, xs⟩ >>= fun d => applyFragment d ⟨p, false, ys⟩) =
      applyFragment d ⟨p, true, xs ++ ys⟩ := by
  -- The update that the first fragment made is continued by the second.
  have hcontinue {d₀ : WgDevice} {id : PeerId} (replace : Bool) (hremove : p.removeMe = false)
      (hid : (d₀.lookupPeer p.publicKey).map WgPeer.id = some id) :
      (d₀.updatePeer id replace (fragmentTb ⟨p, true, xs⟩) >>= fun d =>
          applyFragment d ⟨p, false, ys⟩) =
        d₀.updatePeer id replace (fragmentTb ⟨p, true, xs ++ ys⟩) := by
    rw [← updatePeer_append]
    cases hupdate : d₀.updatePeer id replace (fragmentTb ⟨p, true, xs⟩) with
    | error e => rfl
    | ok d₁ =>
      have hid₁ := (lookupPeer_updatePeer hupdate p.publicKey).trans hid
      obtain ⟨peer, hpeer, rfl⟩ := Option.map_eq_some_iff.mp hid₁
      have hfound : applyFragment d₁ ⟨p, false, ys⟩ = _ := applyFragment_found hpeer hremove
      exact hfound
  cases hlookup : d.lookupPeer p.publicKey with
  | some peer =>
    cases hremove : p.removeMe with
    | true =>
      simp only [applyFragment_eq d, hlookup, hremove, if_true]
      have hgone := lookupPeer_wgPeerRemove hd hlookup
      change applyFragment (d.wgPeerRemove peer.id) ⟨p, false, ys⟩ = _
      simp only [applyFragment_eq, hgone, hremove, if_true]
    | false =>
      rw [applyFragment_found hlookup hremove, applyFragment_found hlookup hremove]
      exact hcontinue _ hremove (by rw [hlookup]; rfl)
  | none =>
    cases hremove : p.removeMe with
    | true =>
      simp only [applyFragment_eq d, hlookup, hremove, if_true]
      change applyFragment d ⟨p, false, ys⟩ = _
      simp only [applyFragment_eq, hlookup, hremove, if_true]
    | false =>
      cases hown : d.hasIdentity && p.publicKey == d.staticPublic with
      | true =>
        simp only [applyFragment_eq d, hlookup, hremove, hown, if_true, Bool.false_eq_true,
          if_false]
        change applyFragment d ⟨p, false, ys⟩ = _
        simp only [applyFragment_eq, hlookup, hremove, hown, if_true, Bool.false_eq_true, if_false]
      | false =>
        simp only [applyFragment_eq d, hlookup, hremove, hown, Bool.false_eq_true, if_false]
        have hpsk : (fragmentTb ⟨p, true, xs ++ ys⟩).presharedKey =
            (fragmentTb ⟨p, true, xs⟩).presharedKey := rfl
        rw [hpsk, bind_assoc]
        cases hcreate : d.wgPeerCreate p.publicKey (fragmentTb ⟨p, true, xs⟩).presharedKey with
        | error e => rfl
        | ok d₀ => exact hcontinue false hremove (lookupPeer_wgPeerCreate hlookup hcreate)

/-! ## The number of updates -/

/-- The device with another `device_update_gen`. -/
def withGen (n : Nat) (d : WgDevice) : WgDevice := { d with deviceUpdateGen := n }

theorem updatePeer_withGen (d : WgDevice) (n : Nat) (id : PeerId) (replace : Bool) (tb : PeerTb) :
    (withGen n d).updatePeer id replace tb = (d.updatePeer id replace tb).map (withGen n) := by
  have hheader : (withGen n d).setPeerHeader id tb = withGen n (d.setPeerHeader id tb) := by
    unfold WgDevice.setPeerHeader
    cases tb.presharedKey <;> cases tb.endpoint <;> rfl
  have hkeepalive (d : WgDevice) (T : Table) :
      { withGen n d with peerAllowedips := T }.setPeerKeepalive id tb =
        withGen n ({ d with peerAllowedips := T }.setPeerKeepalive id tb) := by
    unfold WgDevice.setPeerKeepalive
    cases tb.persistentKeepaliveInterval <;> rfl
  simp only [WgDevice.updatePeer, hheader]
  generalize d.setPeerHeader id tb = d
  rw [show (withGen n d).peerAllowedips = d.peerAllowedips from rfl]
  cases WgDevice.setAllowedips (if replace then d.peerAllowedips.wgAllowedipsRemoveByPeer id
      else d.peerAllowedips) id (tb.allowedips.getD []) with
  | error e => rfl
  | ok T => exact congrArg Except.ok (hkeepalive d T)

theorem wgPeerCreate_withGen (d : WgDevice) (n : Nat) (key : Key) (psk : Option Key) :
    (withGen n d).wgPeerCreate key psk = (d.wgPeerCreate key psk).map (withGen n) := by
  unfold WgDevice.wgPeerCreate
  rw [show (withGen n d).peerList = d.peerList from rfl]
  split <;> rfl

theorem applyFragment_withGen (d : WgDevice) (n : Nat) (f : Fragment Wgpeer Wgallowedip) :
    applyFragment (withGen n d) f = (applyFragment d f).map (withGen n) := by
  have hlookup : (withGen n d).lookupPeer f.group.publicKey = d.lookupPeer f.group.publicKey := rfl
  rw [applyFragment_eq, applyFragment_eq, hlookup]
  cases d.lookupPeer f.group.publicKey with
  | some peer =>
    cases f.group.removeMe with
    | true => rfl
    | false => exact updatePeer_withGen d n peer.id _ _
  | none =>
    cases f.group.removeMe with
    | true => rfl
    | false =>
      rw [show (withGen n d).hasIdentity = d.hasIdentity from rfl,
        show (withGen n d).staticPublic = d.staticPublic from rfl]
      cases d.hasIdentity && f.group.publicKey == d.staticPublic with
      | true => rfl
      | false =>
        simp only [Bool.false_eq_true, if_false, wgPeerCreate_withGen]
        cases d.wgPeerCreate f.group.publicKey (fragmentTb f).presharedKey with
        | error e => rfl
        | ok d₀ => exact updatePeer_withGen d₀ n d.nextPeer false _

theorem foldlM_applyFragment_withGen (d : WgDevice) (n : Nat)
    (fs : List (Fragment Wgpeer Wgallowedip)) :
    fs.foldlM applyFragment (withGen n d) = (fs.foldlM applyFragment d).map (withGen n) := by
  induction fs generalizing d with
  | nil => rfl
  | cons f rest ih =>
    rw [List.foldlM_cons, List.foldlM_cons, applyFragment_withGen]
    cases applyFragment d f with
    | error e => rfl
    | ok d' => exact ih d'

/-- The name of a device is not configured. -/
theorem name_updatePeer {id : PeerId} {replace : Bool} {tb : PeerTb}
    (h : d.updatePeer id replace tb = .ok d') : d'.name = d.name := by
  obtain ⟨T, -, hd'⟩ := bind_eq_ok.mp h
  cases hd'
  unfold WgDevice.setPeerKeepalive WgDevice.setPeerHeader
  cases tb.presharedKey <;> cases tb.endpoint <;> cases tb.persistentKeepaliveInterval <;> rfl

theorem name_applyFragment {f : Fragment Wgpeer Wgallowedip} (h : applyFragment d f = .ok d') :
    d'.name = d.name := by
  rw [applyFragment_eq] at h
  split at h
  · split at h
    · cases h
      rfl
    · exact name_updatePeer h
  · split at h
    · cases h
      rfl
    split at h
    · cases h
      rfl
    obtain ⟨d₀, hcreate, hupdate⟩ := bind_eq_ok.mp h
    unfold WgDevice.wgPeerCreate at hcreate
    split at hcreate
    · cases hcreate
    · cases hcreate
      exact (name_updatePeer hupdate).trans rfl

theorem name_foldlM_applyFragment {fs : List (Fragment Wgpeer Wgallowedip)}
    (h : fs.foldlM applyFragment d = .ok d') : d'.name = d.name := by
  induction fs generalizing d with
  | nil =>
    cases h
    rfl
  | cons f rest ih =>
    obtain ⟨d₁, hhead, hrest⟩ := bind_eq_ok.mp h
    exact (ih hrest).trans (name_applyFragment hhead)

/-! ## Messages -/

variable {dev : Wgdevice}

/-- The attributes of the device name it, and no peer. -/
theorem parse_deviceSetAttrs (dev : Wgdevice) (first : Bool) :
    (DeviceTb.parse (deviceSetAttrs dev first)).peers = none ∧
      (DeviceTb.parse (deviceSetAttrs dev first)).ifindex = none ∧
      (DeviceTb.parse (deviceSetAttrs dev first)).ifname = some dev.name := by
  simp only [DeviceTb.parse, deviceSetAttrs, List.foldl_cons]
  cases first with
  | false => exact ⟨rfl, rfl, rfl⟩
  | true =>
    simp only [if_true, List.foldl_append, foldl_attrIf]
    cases dev.hasPrivateKey <;> cases dev.hasListenPort <;> cases dev.hasFwmark <;>
      cases dev.hasTransport <;> cases dev.replacePeers <;> exact ⟨rfl, rfl, rfl⟩

theorem lookupInterface_deviceSetAttrs (d : WgDevice) (dev : Wgdevice) (first : Bool) :
    d.lookupInterface (.parse (deviceSetAttrs dev first)) =
      if dev.name = d.name.chars then .ok () else .error .nodev := by
  obtain ⟨-, hindex, hname⟩ := parse_deviceSetAttrs dev first
  rw [WgDevice.lookupInterface, hindex, hname]

/-- A message is its device attributes and then its fragments. -/
theorem SetCarries.wgSetDevice_eq {first : Bool} {msg : Message}
    {fs : List (Fragment Wgpeer Wgallowedip)} (h : SetCarries dev first msg fs) (env : Env)
    (d : WgDevice) :
    d.wgSetDevice env msg =
      (d.lookupInterface (.parse (deviceSetAttrs dev first)) >>= fun _ =>
        d.setAttrs env (.parse (deviceSetAttrs dev first)) >>= fun d =>
          fs.foldlM applyFragment d) := by
  rcases h with ⟨rfl, rfl⟩ | ⟨nests, rfl, hall⟩
  · simp only [WgDevice.wgSetDevice, (parse_deviceSetAttrs dev first).1]
    rfl
  · have hparse : DeviceTb.parse (deviceSetAttrs dev first ++ [.peers nests]) =
        { DeviceTb.parse (deviceSetAttrs dev first) with peers := some nests } := by
      rw [DeviceTb.parse, List.foldl_append]
      rfl
    have hpeers (d : WgDevice) : d.setPeers nests = fs.foldlM applyFragment d :=
      setPeers_eq hall d
    simp only [WgDevice.wgSetDevice, hparse, Option.getD_some, hpeers]
    rfl

/-- A message after the first counts as an update and applies its fragments. -/
theorem SetCarries.wgSetDevice_next {msg : Message} {fs : List (Fragment Wgpeer Wgallowedip)}
    (h : SetCarries dev false msg fs) (env : Env) (hname : d.name.chars = dev.name) :
    d.wgSetDevice env msg =
      (fs.foldlM applyFragment d).map (withGen (d.deviceUpdateGen + 1)) := by
  rw [h.wgSetDevice_eq env d, ← foldlM_applyFragment_withGen]
  have hlookup : d.lookupInterface (.parse (deviceSetAttrs dev false)) = .ok () := by
    rw [lookupInterface_deviceSetAttrs, if_pos hname.symm]
  have hattrs : d.setAttrs env (.parse (deviceSetAttrs dev false)) =
      .ok (withGen (d.deviceUpdateGen + 1) d) := by
    simp [WgDevice.setAttrs, deviceSetAttrs, DeviceTb.parse, DeviceTb.set, DeviceTb.empty, hasFlag,
      withGen, pure, Except.pure, bind, Except.bind]
  rw [hlookup, hattrs]
  rfl

/-- The kernel processes messages in order, until one fails. -/
def wgSetDevices (env : Env) (d : WgDevice) (msgs : List Message) : Except Errno WgDevice :=
  msgs.foldlM (fun d msg => WgDevice.wgSetDevice d env msg) d

theorem wgSetDevice_rest {msgs : List Message} {fss : List (List (Fragment Wgpeer Wgallowedip))}
    (h : List.Forall₂ (SetCarries dev false) msgs fss) (env : Env)
    (hname : d.name.chars = dev.name) :
    (wgSetDevices env d msgs).map (withGen 0) =
      (fss.flatten.foldlM applyFragment d).map (withGen 0) := by
  have hmap (n : Nat) (r : Except Errno WgDevice) :
      (r.map (withGen n)).map (withGen 0) = r.map (withGen 0) := by
    cases r <;> rfl
  induction h generalizing d with
  | nil => rfl
  | @cons msg fs msgs fss hmsg _ ih =>
    rw [wgSetDevices, List.foldlM_cons, List.flatten_cons, List.foldlM_append,
      hmsg.wgSetDevice_next env hname]
    cases hfs : fs.foldlM applyFragment d with
    | error e => rfl
    | ok d₁ =>
      have hname₁ : (withGen (d.deviceUpdateGen + 1) d₁).name.chars = dev.name := by
        rw [← hname, ← name_foldlM_applyFragment hfs]
        rfl
      refine (ih hname₁).trans ?_
      rw [foldlM_applyFragment_withGen, hmap]
      rfl

theorem wholeMessage_carries (dev : Wgdevice) :
    SetCarries dev true (wholeMessage dev)
      (dev.peers.map fun p => ⟨p, true, p.allowedips⟩) := by
  right
  refine ⟨_, rfl, ?_⟩
  rw [List.forall₂_map_left_iff, List.forall₂_map_right_iff, List.forall₂_same]
  intro p _
  exact .inl rfl

theorem name_setPrivateKey (d : WgDevice) (env : Env) (key : Key) :
    (d.setPrivateKey env key).name = d.name := by
  unfold WgDevice.setPrivateKey
  split
  · rfl
  · dsimp only
    split <;> rfl

theorem name_setTransport {flags : BitVec 32} {transport : BitVec 8}
    (h : d.setTransport flags transport = .ok d') : d'.name = d.name := by
  unfold WgDevice.setTransport at h
  repeat' split at h
  all_goals cases h
  all_goals rfl

theorem name_setPort {env : Env} {port : UInt16} (h : d.setPort env port = .ok d') :
    d'.name = d.name := by
  unfold WgDevice.setPort at h
  split at h
  · cases h
    rfl
  split at h
  · cases h
  dsimp only at h
  split at h
  · obtain ⟨_, -, hd'⟩ := bind_eq_ok.mp h
    cases hd'
    rfl
  · cases h
    rfl

theorem name_setAttrs {env : Env} {tb : DeviceTb} (h : d.setAttrs env tb = .ok d') :
    d'.name = d.name := by
  unfold WgDevice.setAttrs at h
  dsimp only at h
  split at h
  · cases h
  split at h
  · cases h
  obtain ⟨d₁, htransport, h⟩ := bind_eq_ok.mp h
  obtain ⟨d₂, hport, h⟩ := bind_eq_ok.mp h
  cases h
  have h₁ : d₁.name = d.name := by
    cases ht : tb.transport with
    | none =>
      rw [ht] at htransport
      cases htransport
      rfl
    | some transport =>
      rw [ht] at htransport
      exact name_setTransport htransport
  have h₂ : d₂.name = d₁.name := by
    have hmark : (tb.fwmark.elim { d₁ with deviceUpdateGen := d₁.deviceUpdateGen + 1 }
        (WgDevice.setFwmark { d₁ with deviceUpdateGen := d₁.deviceUpdateGen + 1 })).name =
        d₁.name := by
      cases tb.fwmark <;> rfl
    cases hp : tb.listenPort with
    | none =>
      rw [hp] at hport
      cases hport
      exact hmark
    | some port =>
      rw [hp] at hport
      exact (name_setPort hport).trans hmark
  have hreplace : (if hasFlag (tb.flags.getD 0) wgdeviceFReplacePeers then d₂.wgPeerRemoveAll
      else d₂).name = d₂.name := by
    split <;> rfl
  cases tb.privateKey with
  | none => exact hreplace.trans (h₂.trans h₁)
  | some key => exact (name_setPrivateKey _ env key).trans (hreplace.trans (h₂.trans h₁))

/-- Fragments are applied as the peers that they are fragments of. -/
theorem foldlM_applyFragment_covers (hd : d.Valid) {peers : List Wgpeer}
    {fs : List (Fragment Wgpeer Wgallowedip)}
    (h : Covers (peers.map fun p => (p, p.allowedips)) fs) :
    (peers.map fun p => (⟨p, true, p.allowedips⟩ : Fragment _ _)).foldlM applyFragment d =
      fs.foldlM applyFragment d := by
  have hkeep {t : WgDevice} {f : Fragment Wgpeer Wgallowedip} {t' : WgDevice} (ht : t.Valid)
      (h : applyFragment t f = .ok t') : t'.Valid := ht.setPeer h
  have hfold := @Covers.foldlM_eq _ _ _ _ applyFragment WgDevice.Valid hkeep
    (fun g xs ys ht => applyFragment_append ht g xs ys) _ _ h d hd
  rw [hfold, List.foldlM_map, List.foldlM_map]

/-- The kernel processes the messages of a configuration as it processes one message with all of
it. -/
theorem wgSetDevices_setMessages (env : Env) (d : Device) {bufsize : Nat}
    (hroomy : SetRoomy dev bufsize) :
    ∃ fuel msgs, setMessages dev bufsize fuel = some msgs ∧
      (wgSetDevices env d.toWgDevice msgs).map (withGen 0) =
        (d.wgSetDevice env (wholeMessage dev)).map (withGen 0) := by
  obtain ⟨fuel, msg, rest, fs, fss, hmsgs, hfirst, hrest, hcovers⟩ := setMessages_covers hroomy
  refine ⟨fuel, msg :: rest, hmsgs, ?_⟩
  rw [wgSetDevices, List.foldlM_cons]
  cases hlookup : d.lookupInterface (.parse (deviceSetAttrs dev true)) with
  | error e =>
    rw [hfirst.wgSetDevice_eq, (wholeMessage_carries dev).wgSetDevice_eq, hlookup]
    rfl
  | ok _ =>
  cases hattrs : d.setAttrs env (.parse (deviceSetAttrs dev true)) with
  | error e =>
    rw [hfirst.wgSetDevice_eq, (wholeMessage_carries dev).wgSetDevice_eq, hlookup, hattrs]
    rfl
  | ok d₁ =>
    have hmsg : d.wgSetDevice env msg = fs.foldlM applyFragment d₁ := by
      rw [hfirst.wgSetDevice_eq, hlookup, hattrs]
      rfl
    have hwhole : d.wgSetDevice env (wholeMessage dev) =
        (fs ++ fss.flatten).foldlM applyFragment d₁ := by
      rw [(wholeMessage_carries dev).wgSetDevice_eq, hlookup, hattrs,
        ← foldlM_applyFragment_covers (d.valid.setAttrs hattrs) hcovers]
      rfl
    have hname : d₁.name.chars = dev.name := by
      rw [lookupInterface_deviceSetAttrs] at hlookup
      split at hlookup
      · next hsame => rw [hsame, name_setAttrs hattrs]
      · cases hlookup
    rw [hmsg, hwhole, List.foldlM_append]
    cases hfs : fs.foldlM applyFragment d₁ with
    | error e => rfl
    | ok d₂ =>
      refine wgSetDevice_rest hrest env ?_
      rw [← hname, name_foldlM_applyFragment hfs]

/-- The check of the transport can only make the messages smaller. -/
theorem SetRoomy.checkTransport {current dev' : Wgdevice} {bufsize : Nat}
    (h : SetRoomy dev bufsize) (hcheck : checkTransport current dev = some dev') :
    SetRoomy dev' bufsize := by
  have hdev' : dev' = dev ∨ dev' = { dev with hasTransport := false } := by
    unfold Tools.checkTransport at hcheck
    split at hcheck
    · split at hcheck
      · cases hcheck
      · exact .inr (Option.some.inj hcheck).symm
    · exact .inl (Option.some.inj hcheck).symm
  rcases hdev' with rfl | rfl
  · exact h
  · have hle (nests : List (List PeerAttr)) :
        messageSize (deviceSetAttrs { dev with hasTransport := false } true ++ [.peers nests]) ≤
          messageSize (deviceSetAttrs dev true ++ [.peers nests]) := by
      rw [messageSize_append_peers, messageSize_append_peers]
      simp only [messageSize, deviceSetAttrs, if_true, List.map_cons, List.map_append,
        List.sum_cons, List.sum_append, attrIf, Bool.false_eq_true, if_false, List.map_nil,
        List.sum_nil]
      omega
    exact ⟨fun peer hpeer => (hle _).trans (h.header peer hpeer),
      fun peer hpeer item hitem => (hle _).trans (h.item peer hpeer item hitem)⟩

/-- With a buffer that has room for the attributes of the device and one allowed IP of a peer,
`kernel_set_device` ends, and the kernel processes its messages as it processes one message with the
whole configuration. -/
theorem kernelSetDevice_atomic (env : Env) (d : Device) (current dev : Wgdevice) (bufsize : Nat)
    (hroomy : SetRoomy dev bufsize) :
    ∃ fuel result, kernelSetDevice current dev bufsize fuel = some result ∧
      ∀ msgs, result = .ok msgs → ∃ dev', checkTransport current dev = some dev' ∧
        (wgSetDevices env d.toWgDevice msgs).map (withGen 0) =
          (d.wgSetDevice env (wholeMessage dev')).map (withGen 0) := by
  cases hcheck : checkTransport current dev with
  | none => exact ⟨0, .error .opnotsupp, by rw [kernelSetDevice, hcheck], fun _ h => by cases h⟩
  | some dev' =>
    obtain ⟨fuel, msgs, hmsgs, hsame⟩ :=
      wgSetDevices_setMessages env d (hroomy.checkTransport hcheck)
    refine ⟨fuel, .ok msgs, by simp only [kernelSetDevice, hcheck, hmsgs, Option.map_some], ?_⟩
    rintro _ ⟨⟩
    exact ⟨dev', rfl, hsame⟩

/-- A device without peers. -/
def noPeers : Device where
  name := .wg0
  ifindex := 7
  netifRunning := false
  incomingPort := 0
  fwmark := 0
  transport := .udp
  hasIdentity := false
  staticPrivate := 0
  staticPublic := 0
  peerList := []
  peerAllowedips := .init
  deviceUpdateGen := 0
  nextPeer := 0
  valid :=
    { keys := by decide
      ids := by decide
      ids_lt := by decide
      table := .init }

/-- A peer with two allowed IPs, of which a message of 120 bytes takes one. -/
def onePeer : Wgdevice :=
  { Wgdevice.zero with
    name := [119, 103, 48]
    replacePeers := true
    peers :=
      [{ Wgpeer.zero with
          replaceAllowedips := true
          hasPublicKey := true
          publicKey := 1
          allowedips := [⟨2, fun _ => 10, 8, 0⟩, ⟨2, fun _ => 11, 8, 0⟩]
          lastAllowedip := true }] }

theorem kernelSetDevice_atomic_onePeer :
    SetRoomy onePeer 120 ∧
      ∃ fuel result, kernelSetDevice .zero onePeer 120 fuel = some result ∧
        ∀ msgs, result = .ok msgs → ∃ dev', checkTransport .zero onePeer = some dev' ∧
          (wgSetDevices ⟨true, fun _ key => (key, true), id, fun _ port => .ok port⟩
              noPeers.toWgDevice msgs).map (withGen 0) =
            (noPeers.wgSetDevice ⟨true, fun _ key => (key, true), id, fun _ port => .ok port⟩
              (wholeMessage dev')).map (withGen 0) := by
  have hroomy : SetRoomy onePeer 120 := ⟨by decide +kernel, by decide +kernel⟩
  exact ⟨hroomy, kernelSetDevice_atomic _ noPeers .zero onePeer 120 hroomy⟩

end Tools

end WgTcp
