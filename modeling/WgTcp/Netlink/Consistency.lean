import WgTcp.Netlink.Request
import WgTcp.Netlink.SplitEquiv

/-!
# Owners that live

A node of the AllowedIPs table points to a peer without holding a reference to
it, and so the table must never own a prefix for a peer that has left the
device. Requests keep this, wherever they stop: a peer takes its prefixes with
it, a failed insertion leaves no node, and no peer has the key of the device.
-/

namespace WgTcp

namespace Netlink

open AllowedIps

/-! ## The map of a table -/

/-- The tries and the lists of a table agree on the given map. -/
def Mirrors (T : Table) (R : RefTable) : Prop := ∃ F, Shaped T F ∧ Reflects F R

variable {T : Table} {R : RefTable}

theorem Mirrors.init : Mirrors .init fun _ _ => none := ⟨_, Shaped.init, Reflects.init⟩

theorem Mirrors.sound (h : Mirrors T R) : Sound T := by
  obtain ⟨F, hF, hR⟩ := h
  exact ⟨F, R, hF, hR⟩

theorem Mirrors.apply (h : Mirrors T R) (op : Op) : Mirrors (T.apply op) (R.apply op) := by
  obtain ⟨F, hF, hR⟩ := h
  exact hF.apply hR op

/-- An insertion without memory leaves the map as it was. -/
theorem Mirrors.insertWith (h : Mirrors T R) (mem : Nat) (f : Family) (ip : BitVec f.bits)
    (cidr : Nat) (peer : PeerId) :
    Mirrors (T.insertWith mem f ip cidr peer).2 (R.apply (.insert f ip cidr peer)) ∨
      Mirrors (T.insertWith mem f ip cidr peer).2 R := by
  obtain ⟨F', hF', hR'⟩ := h.apply (.insert f ip cidr peer)
  obtain ⟨F, hF, hR⟩ := h
  have happly : T.apply (.insert f ip cidr peer) = (T.insertFamily f ip cidr peer).2 := by
    cases f <;> rfl
  rcases add_mem f mem (T.trie f) ip cidr peer (hF.fresh f) with hadd | hadd
  · refine .inl ⟨F', ?_, hR'⟩
    rw [happly] at hF'
    simpa [Table.insertWith, Table.insertFamily, hadd] using hF'
  · refine .inr ⟨F, ?_, hR⟩
    simpa [Table.insertWith, hadd] using hF.seq (T.seq + 1)

/-- Every prefix of the map belongs to one of the given peers. -/
def OwnedBy (live : PeerId → Prop) (R : RefTable) : Prop :=
  ∀ f x id, R f x = some id → live id

variable {live : PeerId → Prop}

theorem OwnedBy.set (h : OwnedBy live R) (f : Family) (ip : BitVec f.bits) (cidr : Nat)
    {peer : Option PeerId} (hpeer : ∀ id, peer = some id → live id) :
    OwnedBy live (R.set f ip cidr peer) := by
  intro g x id hx
  rw [RefTable.set] at hx
  by_cases hg : g = f
  · subst hg
    rw [Function.update_self] at hx
    by_cases hk : x = (maskKey ip cidr, cidr)
    · rw [hk, Function.update_self] at hx
      exact hpeer id hx
    · rw [Function.update_of_ne hk] at hx
      exact h g x id hx
  · rw [Function.update_of_ne hg] at hx
    exact h g x id hx

theorem OwnedBy.insert (h : OwnedBy live R) (f : Family) (ip : BitVec f.bits) (cidr : Nat)
    {peer : PeerId} (hpeer : live peer) : OwnedBy live (R.apply (.insert f ip cidr peer)) := by
  rw [RefTable.apply]
  split
  · refine h.set f ip cidr ?_
    rintro id ⟨⟩
    exact hpeer
  · exact h

theorem OwnedBy.remove (h : OwnedBy live R) (f : Family) (ip : BitVec f.bits) (cidr : Nat)
    (peer : PeerId) : OwnedBy live (R.apply (.remove f ip cidr peer)) := by
  rw [RefTable.apply]
  split
  · refine h.set f ip cidr ?_
    rintro id ⟨⟩
  · exact h

/-- Without the prefixes of a peer, none is left to it. -/
theorem OwnedBy.removeByPeer (h : OwnedBy live R) (peer : PeerId) :
    OwnedBy (fun id => live id ∧ id ≠ peer) (R.apply (.removeByPeer peer)) := by
  intro f x id hx
  simp only [RefTable.apply] at hx
  split at hx
  · cases hx
  · next hne =>
    refine ⟨h f x id hx, ?_⟩
    rintro rfl
    exact hne hx

theorem OwnedBy.mono {live' : PeerId → Prop} (h : OwnedBy live R)
    (himp : ∀ id, live id → live' id) : OwnedBy live' R :=
  fun f x id hx => himp id (h f x id hx)

theorem exists_of_longest {α : Type*} {g : Nat → Option α} {n : Nat} {v : α}
    (h : longest g n = some v) : ∃ c, g c = some v := by
  induction n with
  | zero => exact ⟨0, h⟩
  | succ n ih =>
    rw [longest, Option.or_eq_some_iff] at h
    rcases h with h | ⟨-, h⟩
    · exact ⟨n + 1, h⟩
    · exact ih h

/-! ## Addresses and keys -/

/-- `curve25519_generate_public` is a function of the secret: whether there is a public key, and
which one. -/
def Env.Lawful (env : Env) : Prop :=
  ∀ key, ∃ r : Option Key, ∀ buf,
    (env.curve25519GeneratePublic buf key).2 = r.isSome ∧
      ∀ pub, r = some pub → (env.curve25519GeneratePublic buf key).1 = pub

namespace WgDevice

/-- The public key of the device. -/
def own (d : WgDevice) : Option Key := if d.hasIdentity then some d.staticPublic else none

/-- The peer with a key is at an address. -/
def Names (d : WgDevice) (id : PeerId) (key : Key) : Prop :=
  (d.lookupPeer key).map WgPeer.id = some id

variable {d d' : WgDevice} {id : PeerId} {key : Key} {p : WgPeer}

theorem lookupPeer_eq_some_iff (hd : d.Valid) :
    d.lookupPeer key = some p ↔ p ∈ d.peerList ∧ p.remoteStatic = key := by
  constructor
  · intro h
    exact ⟨List.mem_of_find?_eq_some h, by simpa using List.find?_some h⟩
  · rintro ⟨hp, rfl⟩
    cases hfind : d.lookupPeer p.remoteStatic with
    | none => exact absurd (List.mem_map_of_mem hp) (lookupPeer_eq_none.mp hfind)
    | some q =>
      have hkey : q.remoteStatic = p.remoteStatic := by simpa using List.find?_some hfind
      rw [List.inj_on_of_nodup_map hd.keys (List.mem_of_find?_eq_some hfind) hp hkey]

theorem names_of_lookupPeer (h : d.lookupPeer key = some p) : d.Names p.id key := by
  rw [Names, h]
  rfl

theorem names_iff (hd : d.Valid) :
    d.Names id key ↔ ∃ p, (p ∈ d.peerList ∧ p.remoteStatic = key) ∧ p.id = id := by
  simp only [Names, Option.map_eq_some_iff, lookupPeer_eq_some_iff hd]

theorem names_key (hd : d.Valid) {key' : Key} (h : d.Names id key) (h' : d.Names id key') :
    key = key' := by
  obtain ⟨p, ⟨hp, rfl⟩, hid⟩ := (names_iff hd).mp h
  obtain ⟨q, ⟨hq, rfl⟩, hid'⟩ := (names_iff hd).mp h'
  rw [List.inj_on_of_nodup_map hd.ids hp hq (hid.trans hid'.symm)]

theorem lookupPeer_eq_none_iff : d.lookupPeer key = none ↔ ∀ id, ¬ d.Names id key := by
  cases h : d.lookupPeer key <;> simp [Names, h]

theorem names_congr
    (h : ∀ key, (d'.lookupPeer key).map WgPeer.id = (d.lookupPeer key).map WgPeer.id) :
    d'.Names = d.Names := by
  funext i k
  rw [Names, Names, h]

theorem names_wgPeerRemove (hd : d.Valid) {i : PeerId} {k : Key} :
    (d.wgPeerRemove id).Names i k ↔ d.Names i k ∧ i ≠ id := by
  rw [names_iff (hd.wgPeerRemove id), names_iff hd]
  simp only [wgPeerRemove, List.mem_filter, bne_iff_ne]
  constructor
  · rintro ⟨p, ⟨⟨hp, hne⟩, hk⟩, rfl⟩
    exact ⟨⟨p, ⟨hp, hk⟩, rfl⟩, hne⟩
  · rintro ⟨⟨p, ⟨hp, hk⟩, rfl⟩, hne⟩
    exact ⟨p, ⟨⟨hp, hne⟩, hk⟩, rfl⟩

/-- A new peer comes last. -/
theorem lookupPeer_created {psk : Option Key} (hcreate : d.wgPeerCreate key psk = .ok d')
    (k : Key) : d'.lookupPeer k = (d.lookupPeer k).or
      (if key = k then some ⟨d.nextPeer, key, psk.getD 0, .unset, 0, ⟨0, 0⟩, 0, 0⟩ else none) := by
  unfold WgDevice.wgPeerCreate at hcreate
  split at hcreate
  · cases hcreate
  cases hcreate
  simp [lookupPeer, List.find?_append, List.find?_singleton]

/-- A device without its peers. -/
def attrs (d : WgDevice) : WgDevice :=
  { d with peerList := [], peerAllowedips := .init, nextPeer := 0 }

theorem own_of_attrs (h : d'.attrs = d.attrs) : d'.own = d.own := by
  have hown (d : WgDevice) : d.own = d.attrs.own := rfl
  rw [hown, h, ← hown]

theorem attrs_wgPeerCreate {psk : Option Key} (hcreate : d.wgPeerCreate key psk = .ok d') :
    d'.attrs = d.attrs ∧ d'.peerAllowedips = d.peerAllowedips := by
  unfold WgDevice.wgPeerCreate at hcreate
  split at hcreate
  · cases hcreate
  · cases hcreate
    exact ⟨rfl, rfl⟩

theorem names_clearEndpointSrcs : d.clearEndpointSrcs.Names = d.Names := by
  apply names_congr
  intro k
  simp [lookupPeer, clearEndpointSrcs, List.find?_map, Function.comp_def]

/-! ## Consistent devices -/

/-- The peer at an address is on the list. -/
def Live (d : WgDevice) (id : PeerId) : Prop := ∃ key, d.Names id key

structure Consistent (d : WgDevice) : Prop where
  valid : d.Valid
  owners : ∃ R, Mirrors d.peerAllowedips R ∧ OwnedBy d.Live R
  own : ∀ key, d.own = some key → d.lookupPeer key = none

/-- What neither the addresses, the keys nor the table depend on. -/
theorem Consistent.of_names (h : d.Consistent) (hvalid : d'.Valid) (hnames : d'.Names = d.Names)
    (hown : d'.own = d.own) (htable : d'.peerAllowedips = d.peerAllowedips) : d'.Consistent where
  valid := hvalid
  owners := by
    have hlive : d'.Live = d.Live := by
      unfold Live
      rw [hnames]
    rw [htable, hlive]
    exact h.owners
  own key hkey := by
    rw [lookupPeer_eq_none_iff, hnames, ← lookupPeer_eq_none_iff]
    exact h.own key (hown ▸ hkey)

theorem Consistent.setTable (h : d.Consistent) {T : Table}
    (howners : ∃ R, Mirrors T R ∧ OwnedBy d.Live R) :
    { d with peerAllowedips := T }.Consistent where
  valid := by
    obtain ⟨R, hT, -⟩ := howners
    exact h.valid.setTable hT.sound
  owners := howners
  own := h.own

theorem Consistent.wgPeerRemove (h : d.Consistent) (id : PeerId) :
    (d.wgPeerRemove id).Consistent where
  valid := h.valid.wgPeerRemove id
  owners := by
    obtain ⟨R, hT, hR⟩ := h.owners
    refine ⟨_, hT.apply (.removeByPeer id), (hR.removeByPeer id).mono ?_⟩
    rintro i ⟨⟨k, hk⟩, hne⟩
    exact ⟨k, (names_wgPeerRemove h.valid).mpr ⟨hk, hne⟩⟩
  own key hkey := by
    rw [lookupPeer_eq_none_iff]
    intro i hi
    exact lookupPeer_eq_none_iff.mp (h.own key hkey) i ((names_wgPeerRemove h.valid).mp hi).1

/-- A new peer does not have the key of another one or of the device. -/
theorem Consistent.wgPeerCreate (h : d.Consistent) {psk : Option Key}
    (hkey : d.lookupPeer key = none) (hown : d.own ≠ some key)
    (hcreate : d.wgPeerCreate key psk = .ok d') : d'.Consistent ∧ d'.Names d.nextPeer key := by
  have hlookup := lookupPeer_created hcreate
  obtain ⟨hattrs, htable⟩ := attrs_wgPeerCreate hcreate
  refine ⟨⟨h.valid.wgPeerCreate hkey hcreate, ?_, ?_⟩, by simp [Names, hlookup, hkey]⟩
  · obtain ⟨R, hT, hR⟩ := h.owners
    refine ⟨R, htable ▸ hT, hR.mono ?_⟩
    rintro i ⟨k, hk⟩
    obtain ⟨p, hp, hid⟩ := Option.map_eq_some_iff.mp hk
    exact ⟨k, by simp [Names, hlookup, hp, hid]⟩
  · intro k hk
    rw [own_of_attrs hattrs] at hk
    have hne : key ≠ k := by
      rintro rfl
      exact hown hk
    simp [hlookup, h.own k hk, hne]

/-- The table is empty before the first peer is dropped. -/
theorem mirrors_wgPeerRemoveAll {R : RefTable} (h : Mirrors d.peerAllowedips R) :
    Mirrors d.wgPeerRemoveAll.peerAllowedips fun _ _ => none := by
  have hloop (T : Table) (peers : List WgPeer) (hT : Mirrors T fun _ _ => none) :
      Mirrors (peers.foldl (fun T p => T.wgAllowedipsRemoveByPeer p.id) T) fun _ _ => none := by
    induction peers generalizing T with
    | nil => exact hT
    | cons p rest ih =>
      apply ih
      have hone := hT.apply (.removeByPeer p.id)
      simp only [RefTable.apply, reduceCtorEq, if_false] at hone
      exact hone
  exact hloop _ d.peerList (h.apply .free)

theorem Consistent.wgPeerRemoveAll (h : d.Consistent) : d.wgPeerRemoveAll.Consistent where
  valid := h.valid.wgPeerRemoveAll
  owners := by
    obtain ⟨R, hT, -⟩ := h.owners
    refine ⟨_, mirrors_wgPeerRemoveAll hT, ?_⟩
    rintro f x id ⟨⟩
  own key _ := rfl

/-- The peer with the new key of the device has left before the key is set. -/
theorem Consistent.setIdentity (h : d.Consistent) {env : Env} (henv : env.Lawful) {key : Key}
    (hgone : (env.curve25519GeneratePublic 0 key).2 = true →
      d.lookupPeer (env.curve25519GeneratePublic 0 key).1 = none) :
    { d with
      staticPrivate := env.curve25519ClampSecret key
      staticPublic := (env.curve25519GeneratePublic d.staticPublic key).1
      hasIdentity := (env.curve25519GeneratePublic d.staticPublic key).2 }.Consistent where
  valid := h.valid.congr rfl rfl rfl
  owners := h.owners
  own pub hpub := by
    obtain ⟨r, hr⟩ := henv key
    simp only [WgDevice.own] at hpub
    split at hpub
    · next hgenerated =>
      rw [(hr d.staticPublic).1, Option.isSome_iff_exists] at hgenerated
      obtain ⟨q, hq⟩ := hgenerated
      rw [(hr d.staticPublic).2 q hq] at hpub
      have hnone := hgone (by rw [(hr 0).1, hq]; rfl)
      rw [(hr 0).2 q hq, Option.some.inj hpub] at hnone
      exact hnone
    · cases hpub

end WgDevice

/-! ## Requests -/

namespace Request

open WgDevice Command

variable {α : Type}

/-- A part of a request that keeps the device consistent, also when it fails. -/
def Preserves (c : Request α) : Prop :=
  Holds (fun wg => wg.Consistent) c (fun _ wg => wg.Consistent) fun wg => wg.Consistent

/-- The same for a part that works on one peer. -/
def PreservesAt (id : PeerId) (c : Request Unit) : Prop :=
  Holds (fun wg => wg.Consistent ∧ wg.Live id) c (fun _ wg => wg.Consistent ∧ wg.Live id)
    fun wg => wg.Consistent

/-- The device that a part of a request reads is the one that it goes on with. -/
theorem holds_get {fail : LiveDevice → Prop} :
    Holds (fun wg => wg.Consistent) (get : Request LiveDevice)
      (fun wg wg' => wg = wg' ∧ wg.Consistent) fail :=
  Holds.get fun _ hwg => ⟨rfl, hwg⟩

theorem preserves_configure {f : WgDevice → WgDevice} (h : ∀ d, d.Consistent → (f d).Consistent) :
    Preserves (configure f) :=
  Holds.modify fun wg hwg => h wg.toWgDevice hwg

theorem preservesAt_configure {id : PeerId} {f : WgDevice → WgDevice}
    (h : ∀ d, d.Consistent → d.Live id → (f d).Consistent) (hnames : ∀ d, (f d).Names = d.Names) :
    PreservesAt id (configure f) := by
  refine Holds.modify fun wg hwg => ⟨h wg.toWgDevice hwg.1 hwg.2, ?_⟩
  obtain ⟨key, hkey⟩ := hwg.2
  refine ⟨key, ?_⟩
  rw [← hnames wg.toWgDevice] at hkey
  exact hkey

/-- An allowed IP of a message, with or without memory. -/
theorem owners_setAllowedipWith {d : WgDevice} {id : PeerId} (mem : Nat) (tb : AllowedIpTb)
    (h : ∃ R, Mirrors T R ∧ OwnedBy d.Live R) (hid : d.Live id) :
    ∃ R, Mirrors (setAllowedipWith mem T id tb).2 R ∧ OwnedBy d.Live R := by
  have hinsert (f : Family) (ip : BitVec f.bits) (cidr : Nat) :
      ∃ R, Mirrors (T.insertWith mem f ip cidr id).2 R ∧ OwnedBy d.Live R := by
    obtain ⟨R, hT, hR⟩ := h
    rcases hT.insertWith mem f ip cidr id with hT' | hT'
    · exact ⟨_, hT', hR.insert f ip cidr hid⟩
    · exact ⟨R, hT', hR⟩
  have hremove (f : Family) (ip : BitVec f.bits) (cidr : Nat) :
      ∃ R, Mirrors (T.removeFamily f ip cidr id).2 R ∧ OwnedBy d.Live R := by
    obtain ⟨R, hT, hR⟩ := h
    have hT' := hT.apply (.remove f ip cidr id)
    refine ⟨_, ?_, hR.remove f ip cidr id⟩
    cases f <;> exact hT'
  unfold setAllowedipWith
  split
  · dsimp only
    split
    · split
      · exact hremove .inet _ _
      · exact hinsert .inet _ _
    · split
      · split
        · exact hremove .inet6 _ _
        · exact hinsert .inet6 _ _
      · exact h
  · exact h

theorem preservesAt_setAllowedip (faults : Faults) (id : PeerId) (attrs : List AllowedIpAttr) :
    PreservesAt id (setAllowedip faults id attrs) := by
  intro wg hwg
  have hT := owners_setAllowedipWith (faults.allowedipMem wg.peerAllowedips.seq) (.parse attrs)
    hwg.1.owners hwg.2
  have hset := hwg.1.setTable hT
  simp only [setAllowedip]
  split_ifs
  · simp only [exec_bind, exec_get]
    cases (setAllowedipWith (faults.allowedipMem wg.peerAllowedips.seq) wg.peerAllowedips id
      (.parse attrs)).1 with
    | ok => exact ⟨hset, hwg.2⟩
    | einval => exact hset
    | enomem => exact hset
  · exact hwg.1

theorem preservesAt_updatePeer (faults : Faults) (id : PeerId) (replace : Bool) (tb : PeerTb) :
    PreservesAt id (updatePeer faults id replace tb) := by
  have hheader (d : WgDevice) : (d.setPeerHeader id tb).Names = d.Names :=
    names_congr (Tools.lookupPeer_setPeerHeader d id tb)
  have hkeepalive (d : WgDevice) : (d.setPeerKeepalive id tb).Names = d.Names :=
    names_congr (Tools.lookupPeer_setPeerKeepalive d id tb)
  unfold updatePeer
  refine Holds.bind (preservesAt_configure ?_ hheader) fun _ => ?_
  · intro d hd _
    refine hd.of_names (hd.valid.setPeerHeader id tb) (hheader d) ?_ ?_ <;>
      (unfold WgDevice.setPeerHeader; cases tb.presharedKey <;> cases tb.endpoint <;> rfl)
  refine Holds.bind (preservesAt_configure ?_ ?_) fun _ => ?_
  · intro d hd _
    split
    · obtain ⟨R, hT, hR⟩ := hd.owners
      exact hd.setTable ⟨_, hT.apply (.removeByPeer id),
        (hR.removeByPeer id).mono fun _ h => h.1⟩
    · exact hd
  · intro d
    split <;> rfl
  refine Holds.bind (Holds.forM fun attrs _ => preservesAt_setAllowedip faults id attrs) fun _ => ?_
  refine preservesAt_configure ?_ hkeepalive
  intro d hd _
  refine hd.of_names (hd.valid.setPeerKeepalive id tb) (hkeepalive d) ?_ ?_ <;>
    (unfold WgDevice.setPeerKeepalive; split <;> rfl)

theorem holds_wgPeerCreate (faults : Faults) {key : Key} (psk : Option Key) {wg : LiveDevice}
    (hkey : wg.lookupPeer key = none) (hown : wg.own ≠ some key) :
    Holds (fun wg' => wg = wg' ∧ wg.Consistent) (wgPeerCreate faults key psk)
      (fun id wg' => wg'.Consistent ∧ wg'.Live id) fun wg' => wg'.Consistent := by
  rintro _ ⟨rfl, hwg⟩
  simp only [wgPeerCreate, exec_bind, exec_get]
  split_ifs with hmax hmem hwq
  · exact hwg
  · exact hwg
  · exact hwg
  · have hcreated := hwg.wgPeerCreate hkey hown
      (show wg.wgPeerCreate key psk = _ from if_neg hmax)
    exact ⟨hcreated.1, key, hcreated.2⟩

theorem preserves_setPeer (faults : Faults) (attrs : List PeerAttr) :
    Preserves (setPeer faults attrs) := by
  have hfail : ∀ wg : LiveDevice, wg.Consistent → wg.Consistent := fun _ h => h
  unfold setPeer
  split
  swap
  · exact Holds.throw hfail
  dsimp only
  split
  · exact Holds.throw hfail
  next key hkey =>
  split
  · exact Holds.throw hfail
  split
  · exact Holds.throw hfail
  refine Holds.bind holds_get fun wg => ?_
  have hupdate {id : PeerId} (hid : wg.Live id) (replace : Bool) (tb : PeerTb) :
      Holds (fun wg' => wg = wg' ∧ wg.Consistent) (updatePeer faults id replace tb)
        (fun _ wg' => wg'.Consistent) fun wg' => wg'.Consistent := by
    refine (preservesAt_updatePeer faults id replace tb).consequence ?_ fun _ _ h => h.1
    rintro _ ⟨rfl, hwg⟩
    exact ⟨hwg, hid⟩
  split
  · next peer hpeer =>
    split
    · refine Holds.modify ?_
      rintro _ ⟨rfl, hwg⟩
      exact hwg.wgPeerRemove peer.id
    · exact hupdate ⟨key, names_of_lookupPeer hpeer⟩ _ _
  · next hnone =>
    split
    · refine Holds.pure ?_
      rintro _ ⟨rfl, hwg⟩
      exact hwg
    split
    · refine Holds.pure ?_
      rintro _ ⟨rfl, hwg⟩
      exact hwg
    next hown =>
    have hown' : wg.own ≠ some key := by
      intro h
      apply hown
      unfold WgDevice.own at h
      split at h
      · next hid =>
        cases h
        simp [hid]
      · cases h
    refine Holds.bind (holds_wgPeerCreate faults _ hnone hown') fun id => ?_
    exact (preservesAt_updatePeer faults id false _).consequence (fun _ h => h) fun _ _ h => h.1

theorem preserves_setPrivateKey {env : Env} (henv : env.Lawful) (key : Key) :
    Preserves (setPrivateKey env key) := by
  unfold setPrivateKey
  refine Holds.bind holds_get fun wg => ?_
  split
  · refine Holds.pure ?_
    rintro _ ⟨rfl, hwg⟩
    exact hwg
  dsimp only
  split
  · next peer hpeer =>
    have hfound : (env.curve25519GeneratePublic 0 key).2 = true ∧
        wg.lookupPeer (env.curve25519GeneratePublic 0 key).1 = some peer := by
      split at hpeer
      · next hgenerated => exact ⟨hgenerated, hpeer⟩
      · cases hpeer
    have hremoved : Holds (fun wg' => wg = wg' ∧ wg.Consistent) (wgPeerRemove peer.id)
        (fun _ wg' => wg'.Consistent ∧
          wg'.lookupPeer (env.curve25519GeneratePublic 0 key).1 = none)
        fun wg' => wg'.Consistent := by
      refine Holds.modify ?_
      rintro _ ⟨rfl, hwg⟩
      refine ⟨hwg.wgPeerRemove peer.id, ?_⟩
      exact Tools.lookupPeer_wgPeerRemove hwg.valid hfound.2
    refine hremoved.bind fun _ => Holds.modify ?_
    rintro wg' ⟨hwg', hnone⟩
    exact hwg'.setIdentity henv fun _ => hnone
  · next hnone =>
    refine Holds.modify ?_
    rintro _ ⟨rfl, hwg⟩
    refine hwg.setIdentity henv fun hgenerated => ?_
    rw [if_pos hgenerated] at hnone
    exact hnone

theorem preserves_setTransport (flags : BitVec 32) (transport : BitVec 8) :
    Preserves (setTransport flags transport) := by
  intro wg hwg
  simp only [setTransport, exec_bind, exec_get]
  cases hset : wg.toWgDevice.setTransport flags transport with
  | error e => exact hwg
  | ok d =>
    have hvalid := hwg.valid.setTransport hset
    unfold WgDevice.setTransport at hset
    have hconsistent : d.Consistent := by
      repeat' split at hset
      all_goals cases hset
      · exact hwg
      all_goals exact hwg.of_names hvalid rfl rfl rfl
    exact hconsistent

theorem preserves_setPort (env : Env) (port : UInt16) : Preserves (setPort env port) := by
  intro wg hwg
  have hclear : wg.toWgDevice.clearEndpointSrcs.Consistent :=
    hwg.of_names hwg.valid.clearEndpointSrcs names_clearEndpointSrcs rfl rfl
  have hbound (port : UInt16) :
      { wg.toWgDevice.clearEndpointSrcs with incomingPort := port }.Consistent :=
    hclear.of_names (hclear.valid.congr rfl rfl rfl) rfl rfl rfl
  simp only [setPort, exec_bind, exec_get]
  split_ifs
  · exact hwg
  · exact hwg
  · cases env.wgSocketInit wg.clearEndpointSrcs port with
    | error e => exact hclear
    | ok port => exact hbound port
  · exact hbound port

theorem preserves_elim {β : Type} {o : Option β} {f : β → Request Unit}
    (h : ∀ b, Preserves (f b)) : Preserves (o.elim (pure ()) f) := by
  cases o with
  | none => exact Holds.pure fun _ hwg => hwg
  | some b => exact h b

theorem preserves_setAttrs {env : Env} (henv : env.Lawful) (tb : DeviceTb) :
    Preserves (setAttrs env tb) := by
  unfold setAttrs
  refine Holds.bind (preserves_configure ?_) fun _ => ?_
  · intro d hd
    exact hd.of_names (hd.valid.congr rfl rfl rfl) rfl rfl rfl
  refine Holds.bind (preserves_configure ?_) fun _ => ?_
  · intro d hd
    cases tb.fwmark with
    | none => exact hd
    | some mark => exact hd.of_names (hd.valid.setFwmark mark) names_clearEndpointSrcs rfl rfl
  refine Holds.bind (preserves_elim (preserves_setPort env)) fun _ => ?_
  split
  · refine Holds.bind (Holds.modify fun wg hwg => ?_) fun _ =>
      preserves_elim (preserves_setPrivateKey henv)
    exact hwg.wgPeerRemoveAll
  · exact preserves_elim (preserves_setPrivateKey henv)

theorem preserves_wgSetDevice {env : Env} (henv : env.Lawful) (faults : Faults) (msg : Message) :
    Preserves (wgSetDevice env faults msg) := by
  have hfail : ∀ wg : LiveDevice, wg.Consistent → wg.Consistent := fun _ h => h
  unfold wgSetDevice
  have hget : Preserves (get : Request LiveDevice) := Holds.get hfail
  refine hget.bind fun wg => ?_
  split
  · exact Holds.throw hfail
  dsimp only
  split
  · exact Holds.throw hfail
  split
  · exact Holds.throw hfail
  refine Holds.bind (preserves_elim (preserves_setTransport _)) fun _ => ?_
  refine Holds.bind (preserves_setAttrs henv _) fun _ => ?_
  exact Holds.forM fun attrs _ => preserves_setPeer faults attrs

end Request

/-! ## Whole runs -/

namespace LiveDevice

/-- The request of a step, if it is one, is answered by a lawful kernel. -/
def Action.Lawful : Action → Prop
  | .setDevice env _ _ => env.Lawful
  | .up _ | .down => True

theorem step_consistent {wg wg' : LiveDevice} {a : Action} (ha : a.Lawful) (h : wg.Consistent)
    (hstep : wg.step a = some wg') : wg'.Consistent := by
  have hport (running : Bool) (port : UInt16) :
      { wg.toWgDevice with netifRunning := running, incomingPort := port }.Consistent :=
    h.of_names (h.valid.congr rfl rfl rfl) rfl rfl rfl
  cases a with
  | setDevice env faults msg =>
    cases hstep
    have hholds := Request.preserves_wgSetDevice ha faults msg wg h
    rcases hexec : Command.exec (Request.wgSetDevice env faults msg) wg with ⟨_ | _, wg'⟩
    · rw [hexec] at hholds
      exact hholds
    · rw [hexec] at hholds
      exact hholds
  | up port =>
    simp only [step] at hstep
    split at hstep
    · cases hstep
    split at hstep
    · next port =>
      cases hstep
      exact hport true port
    · cases hstep
      exact h
  | down =>
    simp only [step] at hstep
    split at hstep
    · cases hstep
      exact hport false wg.incomingPort
    · cases hstep

theorem consistent_wgNewlink (name : IfName) (ifindex : BitVec 32) :
    (wgNewlink name ifindex).Consistent where
  valid := ⟨List.nodup_nil, List.nodup_nil, by rintro id ⟨⟩, .init⟩
  owners := by
    refine ⟨_, Mirrors.init, ?_⟩
    rintro f x id ⟨⟩
  own key hkey := rfl

theorem reached_consistent {name : IfName} {ifindex : BitVec 32} {as : List Action}
    {wg : LiveDevice} (has : ∀ a ∈ as, a.Lawful)
    (hrun : Transition.run step (wgNewlink name ifindex) as = some wg) : wg.Consistent := by
  have hmeets : Transition.Meets step (fun _ a => a.Lawful) (wgNewlink name ifindex) as :=
    Transition.meets_of_forall_mem (fun _ a ha => has a ha) _
  exact Transition.run_invariant_of_meets
    (fun _ _ _ h ha hstep => step_consistent ha h hstep) (consistent_wgNewlink name ifindex)
    hmeets hrun

/-- In every state that requests and changes of the interface reach, failed requests included: what
lookup finds in the AllowedIPs table and what is on the lists of the table are peers of the device,
no two peers have the same key, and none has the key of the device. -/
theorem allowedips_owners_live {name : IfName} {ifindex : BitVec 32} {as : List Action}
    {wg : LiveDevice} (has : ∀ a ∈ as, a.Lawful)
    (hrun : Transition.run step (wgNewlink name ifindex) as = some wg) :
    (∀ f ip id, wg.peerAllowedips.lookup f ip = some id → id ∈ wg.peerList.map WgPeer.id) ∧
      (∀ id, wg.peerAllowedips.lists id ≠ [] → id ∈ wg.peerList.map WgPeer.id) ∧
      (wg.peerList.map WgPeer.remoteStatic).Nodup ∧
      (wg.hasIdentity = true → wg.staticPublic ∉ wg.peerList.map WgPeer.remoteStatic) := by
  have h := reached_consistent has hrun
  obtain ⟨R, ⟨F, hF, hR⟩, hlive⟩ := h.owners
  have hmem {id : PeerId} (hid : wg.Live id) : id ∈ wg.peerList.map WgPeer.id := by
    obtain ⟨key, hkey⟩ := hid
    obtain ⟨p, hp, rfl⟩ := Option.map_eq_some_iff.mp hkey
    exact List.mem_map_of_mem (List.mem_of_find?_eq_some hp)
  refine ⟨?_, ?_, h.valid.keys, ?_⟩
  · intro f ip id hfound
    rw [hF.lookup_eq hR] at hfound
    obtain ⟨c, hc⟩ := exists_of_longest hfound
    exact hmem (hlive f _ id hc)
  · intro id hne
    obtain ⟨⟨f, node⟩, hitem⟩ := List.exists_mem_of_ne_nil _ hne
    obtain ⟨e, he, -, hvalue⟩ := (hF.lists_mem id f node).mp hitem
    exact hmem (hlive f _ id ((hR f _ _ id).mpr ⟨e, he, rfl, rfl, hvalue⟩))
  · intro hidentity
    rw [← WgDevice.lookupPeer_eq_none]
    exact h.own _ (by rw [WgDevice.own, if_pos hidentity])

/-- A kernel whose public keys are the secrets. -/
def plainEnv : Env := ⟨true, fun _ key => (key, true), id, fun _ port => .ok port⟩

theorem plainEnv_lawful : plainEnv.Lawful := by
  intro key
  refine ⟨some key, fun buf => ⟨rfl, ?_⟩⟩
  rintro pub ⟨⟩
  rfl

/-- Two peers with a prefix each; a request that removes the first one and has no memory for the
prefix that it moves to the second one; then the key of the second one becomes the device's. -/
def movingRun : List Action :=
  let ip (a : BitVec 8) : List AllowedIpAttr :=
    [.family 2, .ipaddr [10, a, 0, 0], .cidrMask 16]
  [.setDevice plainEnv .none
      [.ifindex 7, .peers [[.publicKey 1, .allowedips [ip 1]], [.publicKey 2, .allowedips [ip 2]]]],
    .setDevice plainEnv { Faults.none with allowedipMem := fun _ => 0 }
      [.ifindex 7, .peers [[.publicKey 1, .flags 1], [.publicKey 2, .allowedips [ip 3]]]],
    .setDevice plainEnv .none [.ifindex 7, .privateKey 3, .peers [[.publicKey 3]]]]

theorem allowedips_owners_live_moved :
    ∃ wg, Transition.run step (wgNewlink .wg0 7) movingRun = some wg ∧
      wg.peerAllowedips.lookup .inet 0x0a020001#32 = some 1 ∧ wg.staticPublic = 3 ∧
      1 ∈ wg.peerList.map WgPeer.id ∧ 3 ∉ wg.peerList.map WgPeer.remoteStatic := by
  have hlawful : ∀ a ∈ movingRun, a.Lawful := by
    simp only [movingRun, List.mem_cons, List.not_mem_nil, or_false]
    rintro a (rfl | rfl | rfl) <;> exact plainEnv_lawful
  obtain ⟨wg, hrun, hcheck⟩ := Transition.exists_run_of_any
    (by decide +kernel :
      (Transition.run step (wgNewlink .wg0 7) movingRun).any
        (fun wg => decide (wg.peerAllowedips.lookup .inet 0x0a020001#32 = some 1) &&
          wg.hasIdentity && decide (wg.staticPublic = 3)) = true)
  simp only [Bool.and_eq_true, decide_eq_true_eq] at hcheck
  obtain ⟨⟨hfound, hidentity⟩, hkey⟩ := hcheck
  obtain ⟨hlookup, -, -, hown⟩ := allowedips_owners_live hlawful hrun
  refine ⟨wg, hrun, hfound, hkey, hlookup .inet _ 1 hfound, ?_⟩
  rw [← hkey]
  exact hown hidentity

end LiveDevice

end Netlink

end WgTcp
