import WgTcp.Netlink.Consistency
import WgTcp.Netlink.SplitEquiv

/-!
# What a request leaves of the configuration

The configuration of a device as its user sees it: the peers by their public
keys, and for each prefix the key of the peer that owns it. Addresses of peers
and nodes of tries do not appear. A device shows such a configuration, and the
peers of a request change what it shows as they change the configuration.
-/

namespace WgTcp

namespace Tools

open AllowedIps Netlink Fragments

/-- What a request sets for a peer besides its endpoint and its allowed IPs. -/
structure PeerConf where
  presharedKey : Key
  persistentKeepaliveInterval : UInt16
deriving Repr, DecidableEq

/-- The configuration of a peer with what a request sets. -/
def PeerConf.set (p : PeerConf) (s : Wgpeer) : PeerConf where
  presharedKey := if s.hasPresharedKey then s.presharedKey else p.presharedKey
  persistentKeepaliveInterval :=
    if s.hasPersistentKeepaliveInterval then s.persistentKeepaliveInterval
    else p.persistentKeepaliveInterval

/-- The key of the owner of each masked prefix and its length. -/
abbrev Owners := (f : Family) → BitVec f.bits × Nat → Option Key

@[ext] structure Conf where
  peers : Key → Option PeerConf
  owner : Owners

/-- An address and the length of its prefix. -/
abbrev Network := (f : Family) × BitVec f.bits × Nat

/-- The network of an allowed IP, if it is one that `set_allowedip` takes. -/
def Wgallowedip.network (a : Wgallowedip) : Option Network :=
  if a.family = af .inet ∧ a.cidr.toNat ≤ 32 then
    some ⟨.inet, swapEndian 32 ((List.ofFn a.ip).take 4), a.cidr.toNat⟩
  else if a.family = af .inet6 ∧ a.cidr.toNat ≤ 128 then
    some ⟨.inet6, swapEndian 128 (List.ofFn a.ip), a.cidr.toNat⟩
  else none

namespace Owners

def grant (key : Key) (owner : Owners) (n : Network) : Owners :=
  Function.update owner n.1
    (Function.update (owner n.1) (maskKey n.2.1 n.2.2, n.2.2) (some key))

def release (key : Key) (owner : Owners) : Owners :=
  fun f x => if owner f x = some key then none else owner f x

end Owners

namespace Conf

def empty : Conf := ⟨fun _ => none, fun _ _ => none⟩

variable (C : Conf)

def remove (key : Key) : Conf := ⟨Function.update C.peers key none, C.owner.release key⟩

/-- The peer of a request, given what is configured for it so far. -/
def configure (s : Wgpeer) (p : PeerConf) : Conf where
  peers := Function.update C.peers s.publicKey (some (p.set s))
  owner := (s.allowedips.filterMap Wgallowedip.network).foldl (Owners.grant s.publicKey)
    (if s.replaceAllowedips then C.owner.release s.publicKey else C.owner)

/-- A peer of a request to a device with the public key `own`. -/
def setPeer (own : Option Key) (C : Conf) (s : Wgpeer) : Conf :=
  if s.removeMe then C.remove s.publicKey
  else
    match C.peers s.publicKey with
    | some p => C.configure s p
    | none => if own = some s.publicKey then C else C.configure s ⟨0, 0⟩

end Conf

/-! ## What a device shows -/

end Tools

namespace Netlink

def WgPeer.conf (p : WgPeer) : Tools.PeerConf := ⟨p.presharedKey, p.persistentKeepaliveInterval⟩

namespace WgDevice

/-- What is configured for the peer with a key. -/
def confs (d : WgDevice) (key : Key) : Option Tools.PeerConf := (d.lookupPeer key).map WgPeer.conf

/-- The address of the peer with a key and what is configured for it. -/
def view (d : WgDevice) (key : Key) : Option (AllowedIps.PeerId × Tools.PeerConf) :=
  (d.lookupPeer key).map fun p => (p.id, p.conf)

end WgDevice

end Netlink

namespace Tools

open AllowedIps Netlink Fragments WgDevice

/-- A device shows a configuration, by way of the map that its table holds. -/
structure Shows (d : WgDevice) (R : RefTable) (C : Conf) : Prop where
  valid : d.Valid
  table : Mirrors d.peerAllowedips R
  peers : C.peers = d.confs
  owner : ∀ f x, Option.Rel d.Names (R f x) (C.owner f x)

variable {d d' : WgDevice} {T T' : Table} {R : RefTable} {C : Conf} {id : PeerId} {key : Key}

theorem confs_eq_view (d : WgDevice) (k : Key) : d.confs k = (d.view k).map Prod.snd := by
  simp only [WgDevice.confs, WgDevice.view, Option.map_map]
  rfl

theorem names_eq_view (d : WgDevice) :
    d.Names = fun id key => (d.view key).map Prod.fst = some id := by
  funext id key
  simp only [WgDevice.Names, WgDevice.view, Option.map_map]
  rfl

theorem Shows.congr (h : Shows d R C) (hvalid : d'.Valid) (hview : d'.view = d.view)
    (htable : d'.peerAllowedips = d.peerAllowedips) : Shows d' R C where
  valid := hvalid
  table := htable ▸ h.table
  peers := by
    funext k
    rw [h.peers, confs_eq_view, confs_eq_view, hview]
  owner := by
    rw [names_eq_view, hview, ← names_eq_view]
    exact h.owner

/-! ### Owners -/

theorem rel_imp {α β : Type*} {r r' : α → β → Prop} {a : Option α} {b : Option β}
    (h : Option.Rel r a b) (himp : ∀ x y, a = some x → r x y → r' x y) : Option.Rel r' a b := by
  cases h with
  | none => exact .none
  | some hr => exact .some (himp _ _ rfl hr)

/-- The owner of a prefix is the key of the address in the map. -/
theorem Shows.owner_iff (h : Shows d R C) {f : Family} {x : BitVec f.bits × Nat} :
    C.owner f x = some key ↔ ∃ id, R f x = some id ∧ d.Names id key := by
  have hrel := h.owner f x
  generalize R f x = a at hrel ⊢
  generalize C.owner f x = b at hrel ⊢
  cases hrel with
  | none => simp
  | @some i k hik =>
    constructor
    · rintro ⟨⟩
      exact ⟨i, rfl, hik⟩
    · rintro ⟨_, ⟨⟩, hn⟩
      rw [names_key h.valid hik hn]

/-- What belongs to an address in the map belongs to its key in the configuration. -/
theorem rel_release (hd : d.Valid) (hn : d.Names id key) {a : Option PeerId} {b : Option Key}
    (h : Option.Rel d.Names a b) :
    Option.Rel d.Names (if a = some id then none else a) (if b = some key then none else b) := by
  cases h with
  | none => exact .none
  | @some i k hik =>
    have hsame : i = id ↔ k = key := by
      constructor
      · rintro rfl
        exact names_key hd hik hn
      · rintro rfl
        exact Option.some.inj (hik.symm.trans hn)
    simp only [Option.some.injEq, hsame]
    split
    · exact .none
    · exact .some hik

theorem Wgallowedip.network_le {a : Wgallowedip} {n : Network} (h : a.network = some n) :
    n.2.2 ≤ n.1.bits := by
  unfold Wgallowedip.network at h
  split at h
  · next hc =>
    cases h
    exact hc.2
  · split at h
    · next hc =>
      cases h
      exact hc.2
    · cases h

/-- The networks of a request are given to the peer in the order of the request. -/
def grantAll (id : PeerId) (R : RefTable) (ns : List Network) : RefTable :=
  ns.foldl (fun R n => R.apply (.insert n.1 n.2.1 n.2.2 id)) R

theorem rel_grant (hn : d.Names id key) {O : Owners} {n : Network} (hle : n.2.2 ≤ n.1.bits)
    (h : ∀ f x, Option.Rel d.Names (R f x) (O f x)) (f : Family) (x : BitVec f.bits × Nat) :
    Option.Rel d.Names (R.apply (.insert n.1 n.2.1 n.2.2 id) f x) (O.grant key n f x) := by
  rw [RefTable.apply, if_pos hle, RefTable.set, Owners.grant]
  by_cases hf : f = n.1
  · subst hf
    rw [Function.update_self, Function.update_self]
    by_cases hx : x = (maskKey n.2.1 n.2.2, n.2.2)
    · rw [hx, Function.update_self, Function.update_self]
      exact .some hn
    · rw [Function.update_of_ne hx, Function.update_of_ne hx]
      exact h _ x
  · rw [Function.update_of_ne hf, Function.update_of_ne hf]
    exact h f x

theorem rel_grantAll (hn : d.Names id key) {O : Owners} {ns : List Network}
    (hle : ∀ n ∈ ns, n.2.2 ≤ n.1.bits) (h : ∀ f x, Option.Rel d.Names (R f x) (O f x)) :
    ∀ f x, Option.Rel d.Names (grantAll id R ns f x) (ns.foldl (Owners.grant key) O f x) := by
  induction ns generalizing R O with
  | nil => exact h
  | cons n rest ih =>
    exact ih (fun m hm => hle m (List.mem_cons_of_mem _ hm))
      (rel_grant hn (hle n List.mem_cons_self) h)

/-- An allowed IP without flags is inserted. -/
theorem setAllowedip_eq (T : Table) (id : PeerId) {a : Wgallowedip} (hflags : a.flags = 0) :
    setAllowedip T id (.parse (allowedIpSetAttrs a)) =
      match a.network with
      | some n => ret (T.insertFamily n.1 n.2.1 n.2.2 id)
      | none => .error .inval := by
  have hparse : AllowedIpTb.parse (allowedIpSetAttrs a) =
      ⟨some a.family,
        if a.family = af .inet then some ((List.ofFn a.ip).take 4)
        else if a.family = af .inet6 then some (List.ofFn a.ip) else none,
        some a.cidr, none⟩ := by
    simp only [AllowedIpTb.parse, allowedIpSetAttrs, hflags, attrIf]
    split
    · rfl
    · split <;> rfl
  have hne : af .inet ≠ af .inet6 := by decide
  have hinsert : hasFlag ((none : Option (BitVec 32)).getD 0) wgallowedipFRemoveMe = false := by
    decide
  have hlen : ((List.ofFn a.ip).take 4).length = 4 := by simp
  rw [hparse, Wgallowedip.network]
  by_cases h4 : a.family = af .inet
  · by_cases hc : a.cidr.toNat ≤ 32
    · simp only [setAllowedip, h4, hc, hlen, hinsert, and_self, if_true, Bool.false_eq_true,
        if_false]
      rfl
    · simp [setAllowedip, h4, hc, hne]
  · by_cases h6 : a.family = af .inet6
    · by_cases hc : a.cidr.toNat ≤ 128
      · simp only [setAllowedip, h6, hc, hinsert, and_self, if_true, hne.symm, false_and, if_false,
          List.length_ofFn, Bool.false_eq_true]
        rfl
      · simp [setAllowedip, h6, hc, hne.symm]
    · simp [setAllowedip, h4, h6]

theorem setAllowedips_mirrors {as : List Wgallowedip} (hT : Mirrors T R)
    (hflags : ∀ a ∈ as, a.flags = 0)
    (h : WgDevice.setAllowedips T id (as.map allowedIpSetAttrs) = .ok T') :
    Mirrors T' (grantAll id R (as.filterMap Wgallowedip.network)) := by
  induction as generalizing T R with
  | nil =>
    cases h
    exact hT
  | cons a rest ih =>
    rw [List.map_cons, WgDevice.setAllowedips, List.foldlM_cons, bind_eq_ok] at h
    obtain ⟨T₁, hhead, hrest⟩ := h
    rw [setAllowedip_eq T id (hflags a List.mem_cons_self)] at hhead
    cases hn : a.network with
    | none =>
      rw [hn] at hhead
      cases hhead
    | some n =>
      rw [hn] at hhead
      have hT₁ : T₁ = T.apply (.insert n.1 n.2.1 n.2.2 id) := by
        rw [ret_eq_ok hhead]
        obtain ⟨_ | _, _⟩ := n <;> rfl
      rw [List.filterMap_cons_some hn]
      refine ih ?_ (fun b hb => hflags b (List.mem_cons_of_mem _ hb)) hrest
      rw [hT₁]
      exact hT.apply _

/-! ### Peers -/

/-- The whole peer of a request, as one fragment. -/
def whole (s : Wgpeer) : Fragment Wgpeer Wgallowedip := ⟨s, true, s.allowedips⟩

theorem view_modifyPeer (d : WgDevice) (id : PeerId) {f : WgPeer → WgPeer}
    {g : PeerConf → PeerConf} (hf : ∀ p, (f p).remoteStatic = p.remoteStatic ∧ (f p).id = p.id ∧
      (f p).conf = g p.conf) (k : Key) :
    (d.modifyPeer id f).view k =
      (d.view k).map fun e => (e.1, if e.1 = id then g e.2 else e.2) := by
  have hkey (p : WgPeer) : (if p.id = id then f p else p).remoteStatic = p.remoteStatic := by
    split
    · exact (hf p).1
    · rfl
  simp only [WgDevice.view, WgDevice.lookupPeer, WgDevice.modifyPeer, List.find?_map,
    Function.comp_def, hkey, Option.map_map]
  congr 1
  funext p
  by_cases hp : p.id = id
  · simp [hp, hf p]
  · simp [hp]

theorem view_setPeerHeader (d : WgDevice) (id : PeerId) (tb : PeerTb) (k : Key) :
    (d.setPeerHeader id tb).view k = (d.view k).map fun e =>
      (e.1, if e.1 = id then { e.2 with presharedKey := tb.presharedKey.getD e.2.presharedKey }
        else e.2) := by
  have hendpoint (d : WgDevice) (addr : SockAddr) :
      (d.setPeerEndpointConfigured id addr).view k = d.view k := by
    rw [WgDevice.setPeerEndpointConfigured,
      view_modifyPeer d id (g := fun p => p) (by exact fun _ => ⟨rfl, rfl, rfl⟩)]
    simp
  have hpsk (psk : Key) := view_modifyPeer d id (f := fun p => { p with presharedKey := psk })
    (g := fun p => { p with presharedKey := psk }) (fun _ => ⟨rfl, rfl, rfl⟩) k
  unfold WgDevice.setPeerHeader
  cases tb.presharedKey with
  | none => cases tb.endpoint <;> simp [hendpoint]
  | some psk => cases tb.endpoint <;> simp [hendpoint, hpsk]

theorem view_setPeerKeepalive (d : WgDevice) (id : PeerId) (tb : PeerTb) (k : Key) :
    (d.setPeerKeepalive id tb).view k = (d.view k).map fun e =>
      (e.1, if e.1 = id then
        { e.2 with persistentKeepaliveInterval :=
            tb.persistentKeepaliveInterval.getD e.2.persistentKeepaliveInterval } else e.2) := by
  unfold WgDevice.setPeerKeepalive
  cases tb.persistentKeepaliveInterval with
  | none => simp
  | some interval =>
    exact view_modifyPeer d id (g := fun p => { p with persistentKeepaliveInterval := interval })
      (by exact fun _ => ⟨rfl, rfl, rfl⟩) k

/-- What is configured for a peer behind its section, and for the others. -/
theorem view_updatePeer {replace : Bool} {s : Wgpeer}
    (h : d.updatePeer id replace (fragmentTb (whole s)) = .ok d') (k : Key) :
    d'.view k = (d.view k).map fun e => (e.1, if e.1 = id then e.2.set s else e.2) := by
  obtain ⟨T, -, hd'⟩ := bind_eq_ok.mp h
  cases hd'
  have htable : { d.setPeerHeader id (fragmentTb (whole s)) with peerAllowedips := T }.view k =
      (d.setPeerHeader id (fragmentTb (whole s))).view k := rfl
  rw [view_setPeerKeepalive, htable, view_setPeerHeader, Option.map_map]
  congr 1
  funext e
  by_cases he : e.1 = id
  · cases hpsk : s.hasPresharedKey <;> cases hka : s.hasPersistentKeepaliveInterval <;>
      simp [he, PeerConf.set, fragmentTb, whole, hpsk, hka]
  · simp [he]

theorem table_updatePeer {replace : Bool} {tb : PeerTb}
    (h : d.updatePeer id replace tb = .ok d') :
    WgDevice.setAllowedips (if replace then d.peerAllowedips.wgAllowedipsRemoveByPeer id
      else d.peerAllowedips) id (tb.allowedips.getD []) = .ok d'.peerAllowedips ∧
      d'.attrs = d.attrs := by
  obtain ⟨T, hT, hd'⟩ := bind_eq_ok.mp h
  cases hd'
  unfold WgDevice.setPeerHeader at hT
  unfold WgDevice.setPeerKeepalive WgDevice.setPeerHeader
  cases hpsk : tb.presharedKey <;> cases hendpoint : tb.endpoint <;>
    cases tb.persistentKeepaliveInterval <;> rw [hpsk, hendpoint] at hT <;> exact ⟨hT, rfl⟩

/-! ## Requests -/

/-- What a request leaves of a device: what it shows, and the peers that stay where they are. -/
structure Leaves (d : WgDevice) (gone : Key → Prop) (d' : WgDevice) (C : Conf) : Prop where
  shows : ∃ R, Shows d' R C
  attrs : d'.attrs = d.attrs
  kept : ∀ id key, d.Names id key → ¬ gone key → d'.Names id key

theorem Shows.leaves (h : Shows d R C) (gone : Key → Prop) : Leaves d gone d C :=
  ⟨⟨R, h⟩, rfl, fun _ _ hn _ => hn⟩

theorem Shows.updatePeer (h : Shows d R C) {s : Wgpeer} {p : PeerConf} {replace : Bool}
    (hn : d.Names id s.publicKey) (hp : C.peers s.publicKey = some p)
    (hflags : ∀ a ∈ s.allowedips, a.flags = 0)
    (hset : d.updatePeer id replace (fragmentTb (whole s)) = .ok d') (gone : Key → Prop) :
    Leaves d gone d' (C.configure { s with replaceAllowedips := replace } p) := by
  have hview := view_updatePeer hset
  obtain ⟨hT, hattrs⟩ := table_updatePeer hset
  have hnames : d'.Names = d.Names := names_congr (lookupPeer_updatePeer hset)
  let R₁ : RefTable := if replace then R.apply (.removeByPeer id) else R
  have hR₁ : Mirrors (if replace then d.peerAllowedips.wgAllowedipsRemoveByPeer id
      else d.peerAllowedips) R₁ := by
    cases replace with
    | true => exact h.table.apply (.removeByPeer id)
    | false => exact h.table
  have howner : ∀ f x, Option.Rel d.Names (R₁ f x)
      ((if replace then C.owner.release s.publicKey else C.owner) f x) := by
    intro f x
    cases replace with
    | true => exact rel_release h.valid hn (h.owner f x)
    | false => exact h.owner f x
  have hle : ∀ n ∈ s.allowedips.filterMap Wgallowedip.network, n.2.2 ≤ n.1.bits := by
    intro n hmem
    obtain ⟨a, -, ha⟩ := List.mem_filterMap.mp hmem
    exact Wgallowedip.network_le ha
  have hpeers (k : Key) : Function.update C.peers s.publicKey (some (p.set s)) k = d'.confs k := by
    rw [confs_eq_view, hview]
    by_cases hk : k = s.publicKey
    · subst hk
      rw [h.peers, confs_eq_view, Option.map_eq_some_iff] at hp
      rw [names_eq_view, Option.map_eq_some_iff] at hn
      obtain ⟨e, he, rfl⟩ := hp
      obtain ⟨e', he', rfl⟩ := hn
      obtain rfl := Option.some.inj (he.symm.trans he')
      simp [he]
    · rw [Function.update_of_ne hk, h.peers, confs_eq_view]
      cases he : d.view k with
      | none => rfl
      | some e =>
        have hne : e.1 ≠ id := by
          rintro rfl
          exact hk (names_key h.valid (by simp [names_eq_view, he]) hn)
        simp [hne]
  refine ⟨⟨grantAll id R₁ (s.allowedips.filterMap Wgallowedip.network),
    h.valid.updatePeer hset, setAllowedips_mirrors hR₁ hflags hT, funext hpeers, ?_⟩, hattrs,
    fun _ _ hik _ => hnames ▸ hik⟩
  rw [hnames]
  exact rel_grantAll hn hle howner

theorem Shows.wgPeerRemove (h : Shows d R C) {p : WgPeer} (hp : d.lookupPeer key = some p) :
    Leaves d (· = key) (d.wgPeerRemove p.id) (C.remove key) := by
  have hn := names_of_lookupPeer hp
  have hvalid := h.valid.wgPeerRemove p.id
  have hkept {i : PeerId} {k : Key} (hik : d.Names i k) (hne : i ≠ p.id) :
      (d.wgPeerRemove p.id).Names i k := (names_wgPeerRemove h.valid).mpr ⟨hik, hne⟩
  refine ⟨⟨R.apply (.removeByPeer p.id), hvalid, h.table.apply (.removeByPeer p.id), ?_, ?_⟩, rfl,
    fun i k hik hne => hkept hik ?_⟩
  · funext k
    by_cases hk : k = key
    · subst hk
      simp [Conf.remove, WgDevice.confs, lookupPeer_wgPeerRemove h.valid hp]
    · change Function.update C.peers key none k = _
      rw [Function.update_of_ne hk, h.peers, WgDevice.confs, WgDevice.confs]
      congr 1
      apply Option.ext
      intro q
      rw [lookupPeer_eq_some_iff h.valid, lookupPeer_eq_some_iff hvalid, WgDevice.wgPeerRemove,
        List.mem_filter, and_congr_left_iff]
      rintro rfl
      rw [iff_self_and]
      intro hq
      rw [bne_iff_ne]
      intro hid
      exact hk (names_key h.valid ((names_iff h.valid).mpr ⟨q, ⟨hq, rfl⟩, hid⟩) hn)
  · intro f x
    refine rel_imp (rel_release h.valid hn (h.owner f x)) fun i k hi hik => hkept hik ?_
    rintro rfl
    simp only [RefTable.apply] at hi
    split at hi
    · cases hi
    · contradiction
  · rintro rfl
    exact hne (names_key h.valid hik hn)

theorem Shows.remove_eq (h : Shows d R C) (hkey : d.lookupPeer key = none) : C.remove key = C := by
  ext1
  · refine Function.update_eq_self_iff.mpr ?_
    rw [h.peers, WgDevice.confs, hkey]
    rfl
  · funext f x
    change (if C.owner f x = some key then none else C.owner f x) = C.owner f x
    rw [ite_eq_right_iff]
    intro howned
    obtain ⟨id, -, hn⟩ := h.owner_iff.mp howned
    exact absurd hn (lookupPeer_eq_none_iff.mp hkey id)

theorem Shows.wgPeerCreate (h : Shows d R C) {psk : Option Key} (hkey : d.lookupPeer key = none)
    (hcreate : d.wgPeerCreate key psk = .ok d') :
    Shows d' R { C with peers := Function.update C.peers key (some ⟨psk.getD 0, 0⟩) } ∧
      d'.Names d.nextPeer key ∧ ∀ id k, d.Names id k → d'.Names id k := by
  have hlookup := lookupPeer_created hcreate
  have hkept (i : PeerId) (k : Key) (hik : d.Names i k) : d'.Names i k := by
    obtain ⟨p, hp, hid⟩ := Option.map_eq_some_iff.mp hik
    simp [WgDevice.Names, hlookup, hp, hid]
  refine ⟨⟨h.valid.wgPeerCreate hkey hcreate, (attrs_wgPeerCreate hcreate).2 ▸ h.table, ?_,
    fun f x => rel_imp (h.owner f x) fun i k _ => hkept i k⟩,
    by simp [WgDevice.Names, hlookup, hkey], hkept⟩
  funext k
  by_cases hk : k = key
  · subst hk
    simp [WgDevice.confs, hlookup, hkey, WgPeer.conf]
  · simp [WgDevice.confs, hlookup, hk, Ne.symm hk, h.peers]

/-- A new peer has no allowed IPs to replace. -/
theorem Conf.configure_new (C : Conf) {s : Wgpeer} {p : PeerConf}
    (hrelease : C.owner.release s.publicKey = C.owner) (hp : p.set s = PeerConf.set ⟨0, 0⟩ s) :
    Conf.configure { C with peers := Function.update C.peers s.publicKey (some p) }
      { s with replaceAllowedips := false } p = C.configure s ⟨0, 0⟩ := by
  ext1
  · simp only [Conf.configure, Function.update_idem]
    rw [← hp]
    rfl
  · simp [Conf.configure, hrelease]

/-- A peer of a request changes what a device shows as it changes the configuration. -/
theorem Shows.setPeer (h : Shows d R C) {s : Wgpeer} (hflags : ∀ a ∈ s.allowedips, a.flags = 0)
    (hset : applyFragment d (whole s) = .ok d') :
    Leaves d (fun k => s.removeMe = true ∧ s.publicKey = k) d' (C.setPeer d.own s) := by
  have hown (key : Key) : (d.hasIdentity && key == d.staticPublic) = decide (d.own = some key) := by
    unfold WgDevice.own
    cases d.hasIdentity with
    | false => simp
    | true => simp [eq_comm, beq_eq_decide]
  rw [applyFragment_eq] at hset
  cases hfind : d.lookupPeer s.publicKey with
  | some p =>
    have hp : C.peers s.publicKey = some p.conf := by
      rw [h.peers, WgDevice.confs, hfind]
      rfl
    simp only [whole, hfind] at hset
    cases hremove : s.removeMe with
    | true =>
      simp only [hremove, if_true] at hset
      cases hset
      rw [Conf.setPeer, if_pos hremove]
      obtain ⟨hshows, hattrs, hkept⟩ := h.wgPeerRemove hfind
      exact ⟨hshows, hattrs, fun i k hik hne => hkept i k hik fun hk => hne ⟨rfl, hk.symm⟩⟩
    | false =>
      simp only [hremove, Bool.false_eq_true, if_false] at hset
      rw [Conf.setPeer, hremove, hp]
      exact h.updatePeer (names_of_lookupPeer hfind) hp hflags hset _
  | none =>
    have hp : C.peers s.publicKey = none := by
      rw [h.peers, WgDevice.confs, hfind]
      rfl
    simp only [whole, hfind, hown] at hset
    cases hremove : s.removeMe with
    | true =>
      simp only [hremove, if_true] at hset
      cases hset
      rw [Conf.setPeer, if_pos hremove, h.remove_eq hfind]
      exact h.leaves _
    | false =>
      simp only [hremove, Bool.false_eq_true, if_false, decide_eq_true_eq] at hset
      rw [Conf.setPeer, hremove, hp]
      by_cases hself : d.own = some s.publicKey
      · rw [if_pos hself] at hset
        cases hset
        simp only [Bool.false_eq_true, if_false, if_pos hself]
        exact h.leaves _
      · rw [if_neg hself] at hset
        obtain ⟨d₁, hcreate, hupdate⟩ := bind_eq_ok.mp hset
        obtain ⟨h₁, hn₁, hkept₁⟩ := h.wgPeerCreate hfind hcreate
        obtain ⟨hshows, hattrs, hkept⟩ :=
          h₁.updatePeer hn₁ (Function.update_self ..) hflags hupdate
            fun k => s.removeMe = true ∧ s.publicKey = k
        have hpsk : PeerConf.set ⟨(fragmentTb (whole s)).presharedKey.getD 0, 0⟩ s =
            PeerConf.set ⟨0, 0⟩ s := by
          cases hpsk : s.hasPresharedKey <;> simp [PeerConf.set, fragmentTb, whole, hpsk]
        have hconf := C.configure_new (congrArg Conf.owner (h.remove_eq hfind)) hpsk
        simp only [Bool.false_eq_true, if_false, if_neg hself, ← hconf]
        refine ⟨hshows, hattrs.trans (attrs_wgPeerCreate hcreate).1, fun i k hik _ => ?_⟩
        exact hkept i k (hkept₁ i k hik) (by simp [hremove])

/-- The peers of a request, one after the other. -/
theorem Shows.setPeers {ss : List Wgpeer} (h : Shows d R C)
    (hflags : ∀ s ∈ ss, ∀ a ∈ s.allowedips, a.flags = 0)
    (hset : (ss.map whole).foldlM applyFragment d = .ok d') :
    Leaves d (fun k => ∃ s ∈ ss, s.removeMe = true ∧ s.publicKey = k) d'
      (ss.foldl (Conf.setPeer d.own) C) := by
  induction ss generalizing d R C with
  | nil =>
    cases hset
    exact h.leaves _
  | cons s rest ih =>
    rw [List.map_cons, List.foldlM_cons, bind_eq_ok] at hset
    obtain ⟨d₁, hhead, hrest⟩ := hset
    obtain ⟨⟨R₁, h₁⟩, hattrs, hkept⟩ := h.setPeer (hflags s List.mem_cons_self) hhead
    obtain ⟨hshows, hattrs', hkept'⟩ :=
      ih h₁ (fun t ht => hflags t (List.mem_cons_of_mem _ ht)) hrest
    rw [own_of_attrs hattrs] at hshows
    refine ⟨hshows, hattrs'.trans hattrs, fun i k hik hne => hkept' i k (hkept i k hik ?_) ?_⟩
    · exact fun hs => hne ⟨s, List.mem_cons_self, hs⟩
    · rintro ⟨t, ht, hgone⟩
      exact hne ⟨t, List.mem_cons_of_mem _ ht, hgone⟩

/-- Two devices with the same peers, but for their endpoints, and with the same public key. -/
structure SamePeers (d d' : WgDevice) : Prop where
  valid : d.Valid → d'.Valid
  view : d'.view = d.view
  table : d'.peerAllowedips = d.peerAllowedips
  own : d'.own = d.own

theorem SamePeers.of_eq (hpeers : d'.peerList = d.peerList)
    (htable : d'.peerAllowedips = d.peerAllowedips) (hnext : d'.nextPeer = d.nextPeer)
    (hown : d'.own = d.own) : SamePeers d d' := by
  refine ⟨fun h => h.congr hpeers hnext htable, ?_, htable, hown⟩
  funext k
  rw [WgDevice.view, WgDevice.lookupPeer, hpeers]
  rfl

theorem SamePeers.trans {d'' : WgDevice} (h : SamePeers d d') (h' : SamePeers d' d'') :
    SamePeers d d'' :=
  ⟨fun hd => h'.valid (h.valid hd), h'.view.trans h.view, h'.table.trans h.table,
    h'.own.trans h.own⟩

theorem SamePeers.shows (h : SamePeers d d') (hd : Shows d R C) : Shows d' R C :=
  hd.congr (h.valid hd.valid) h.view h.table

/-- No peer has the key of the device. -/
theorem Shows.remove_own (h : Shows d R C) (hown : ∀ k, d.own = some k → d.lookupPeer k = none) :
    Shows d R (d.own.elim C C.remove) := by
  cases hself : d.own with
  | none => exact h
  | some k =>
    rw [Option.elim_some, h.remove_eq (hown k hself)]
    exact h

/-- The key of a request; a peer with this key is gone behind it, and no other. -/
theorem Shows.setPrivateKey (h : Shows d R C) {env : Env} (henv : env.Lawful)
    (hown : ∀ k, d.own = some k → d.lookupPeer k = none) (key : Key) :
    (∃ R', Shows (d.setPrivateKey env key) R'
        ((d.setPrivateKey env key).own.elim C C.remove)) ∧
      ∀ id k, d.Names id k → (d.setPrivateKey env key).own ≠ some k →
        (d.setPrivateKey env key).Names id k := by
  unfold WgDevice.setPrivateKey
  by_cases hsame : d.staticPrivate = key
  · rw [if_pos hsame]
    exact ⟨⟨R, h.remove_own hown⟩, fun _ _ hn _ => hn⟩
  · rw [if_neg hsame]
    obtain ⟨r, hr⟩ := henv key
    have hself (e : WgDevice) :
        { e with
          staticPrivate := env.curve25519ClampSecret key
          staticPublic := (env.curve25519GeneratePublic e.staticPublic key).1
          hasIdentity := (env.curve25519GeneratePublic e.staticPublic key).2 }.own = r := by
      cases r with
      | none => simp [WgDevice.own, (hr e.staticPublic).1]
      | some pub => simp [WgDevice.own, (hr e.staticPublic).1, (hr e.staticPublic).2 pub rfl]
    -- What is set of the key does not concern the peers.
    have hset {e : WgDevice} {R : RefTable} {C : Conf} (he : Shows e R C) (private' pub : Key)
        (b : Bool) :
        Shows { e with staticPrivate := private', staticPublic := pub, hasIdentity := b } R C :=
      he.congr (he.valid.congr rfl rfl rfl) rfl rfl
    dsimp only
    cases r with
    | none =>
      simp only [(hr 0).1, Option.isSome_none, Bool.false_eq_true, if_false, hself]
      exact ⟨⟨R, hset h _ _ _⟩, fun _ _ hn _ => hn⟩
    | some pub =>
      simp only [(hr 0).1, (hr 0).2 pub rfl, Option.isSome_some, if_true]
      cases hfind : d.lookupPeer pub with
      | none =>
        simp only [hself, Option.elim_some, h.remove_eq hfind]
        exact ⟨⟨R, hset h _ _ _⟩, fun _ _ hn _ => hn⟩
      | some peer =>
        simp only [hself, Option.elim_some]
        obtain ⟨⟨R', h'⟩, -, hkept⟩ := h.wgPeerRemove hfind
        exact ⟨⟨R', hset h' _ _ _⟩, fun id k hn hne => hkept id k hn fun hk => hne (hk ▸ rfl)⟩

end Tools

end WgTcp
