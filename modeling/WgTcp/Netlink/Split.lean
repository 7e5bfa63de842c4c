import WgTcp.Netlink.Device
import WgTcp.Tools.Containers
import WgTcp.Foundation.Fragments

/-!
# Configuring a device in several messages

`kernel_set_device` fills one message after the other with what is left of a
configuration. A peer that does not fit completely is continued in the next
message, with its key and its remaining allowed IPs only. The kernel ends with
the same configuration as if one message had carried everything.
-/

namespace WgTcp

namespace Tools

open AllowedIps Netlink Fragments

/-! ## The messages -/

/-- An attribute that is put under a condition. -/
def attrIf {α : Type*} (b : Bool) (attr : α) : List α := if b then [attr] else []

/-- The attributes of the device are put into the first message only. -/
def deviceSetAttrs (dev : Wgdevice) (first : Bool) : Message :=
  .ifname dev.name ::
    if first then
      attrIf dev.hasPrivateKey (DeviceAttr.privateKey dev.privateKey) ++
      attrIf dev.hasListenPort (DeviceAttr.listenPort dev.listenPort) ++
      attrIf dev.hasFwmark (DeviceAttr.fwmark dev.fwmark) ++
      attrIf dev.hasTransport (DeviceAttr.transport dev.transport) ++
      attrIf dev.replacePeers (DeviceAttr.flags wgdeviceFReplacePeers)
    else []

def peerSetFlags (peer : Wgpeer) (first : Bool) : BitVec 32 :=
  (if peer.removeMe then wgpeerFRemoveMe else 0) |||
    (if first && peer.replaceAllowedips then wgpeerFReplaceAllowedips else 0)

/-- The attributes of a peer before its allowed IPs. -/
def peerSetHeader (peer : Wgpeer) (first : Bool) : List PeerAttr :=
  .publicKey peer.publicKey ::
    ((if first then
      attrIf peer.hasPresharedKey (PeerAttr.presharedKey peer.presharedKey) ++
      peer.endpoint.toList.map PeerAttr.endpoint ++
      attrIf peer.hasPersistentKeepaliveInterval
        (PeerAttr.persistentKeepaliveInterval peer.persistentKeepaliveInterval)
    else []) ++
    attrIf (peerSetFlags peer first != 0) (PeerAttr.flags (peerSetFlags peer first)))

def allowedIpSetAttrs (allowedip : Wgallowedip) : List AllowedIpAttr :=
  .family allowedip.family ::
    ((if allowedip.family = af .inet then [.ipaddr ((List.ofFn allowedip.ip).take 4)]
      else if allowedip.family = af .inet6 then [.ipaddr (List.ofFn allowedip.ip)] else []) ++
    .cidrMask allowedip.cidr :: attrIf (allowedip.flags != 0) (.flags allowedip.flags))

/-- The loop over allowed IPs: the nests, the new length of the buffer, and the allowed IPs from the
one that did not fit. -/
def putAllowedips (bufsize : Nat) :
    List Wgallowedip → Nat → List (List AllowedIpAttr) × Nat × List Wgallowedip
  | [], used => ([], used, [])
  | allowedip :: rest, used =>
      let attrs := allowedIpSetAttrs allowedip
      match putAll bufsize (nlaHdrlen :: attrs.map AllowedIpAttr.size) used with
      | none => ([], used, allowedip :: rest)
      | some used =>
          let (nests, used, left) := putAllowedips bufsize rest used
          (attrs :: nests, used, left)

/-- The pointers `peer` and `allowedip`: the list from the element that they point to. -/
structure SetCursor where
  peer : List Wgpeer
  allowedip : List Wgallowedip

/-- What the body of the loop over the peers leaves: nothing of the peer, the nest and the pointer
to go on with, or the nest and the allowed IPs that did not fit. -/
inductive PutPeer where
  | cancelled
  | done (nest : List PeerAttr) (used : Nat) (allowedip : List Wgallowedip)
  | cut (nest : List PeerAttr) (left : List Wgallowedip)

def putPeer (bufsize : Nat) (peer : Wgpeer) (used : Nat) (allowedip : List Wgallowedip) : PutPeer :=
  let header := peerSetHeader peer allowedip.isEmpty
  match putAll bufsize (nlaHdrlen :: header.map PeerAttr.size) used with
  | none => .cancelled
  | some used =>
      if peer.allowedips = [] then .done header used allowedip
      else
        let allowedip := if allowedip = [] then peer.allowedips else allowedip
        match put bufsize nlaHdrlen used with
        | none => .cut header allowedip
        | some used =>
            match putAllowedips bufsize allowedip used with
            | (nests, used, []) => .done (header ++ [.allowedips nests]) used []
            | (nests, _, left) => .cut (header ++ [.allowedips nests]) left

def putPeers (bufsize : Nat) :
    List Wgpeer → Nat → List Wgallowedip → List (List PeerAttr) × SetCursor
  | [], _, allowedip => ([], ⟨[], allowedip⟩)
  | peer :: rest, used, allowedip =>
      match putPeer bufsize peer used allowedip with
      -- `toobig_peers`
      | .cancelled => ([], ⟨peer :: rest, allowedip⟩)
      -- `toobig_allowedips`
      | .cut nest left => ([nest], ⟨peer :: rest, left⟩)
      | .done nest used allowedip =>
          let (nests, cursor) := putPeers bufsize rest used allowedip
          (nest :: nests, cursor)

/-- From `again` to `send`. -/
def setMessage (dev : Wgdevice) (bufsize : Nat) (cursor : SetCursor) : Message × SetCursor :=
  let attrs := deviceSetAttrs dev cursor.peer.isEmpty
  if dev.peers = [] then (attrs, cursor)
  else
    let (nests, cursor) := putPeers bufsize (if cursor.peer = [] then dev.peers else cursor.peer)
      (messageSize attrs + nlaHdrlen) cursor.allowedip
    (attrs ++ [.peers nests], cursor)

/-- The check for a kernel without transports: `none` is `EOPNOTSUPP`. -/
def checkTransport (current dev : Wgdevice) : Option Wgdevice :=
  if dev.hasTransport && !current.hasTransport then
    if dev.transport = transportByte .tcp then none else some { dev with hasTransport := false }
  else some dev

/-- A message, the pointers behind it, and whether it is the last. -/
def setCall (dev : Wgdevice) (bufsize _i : Nat) (cursor : SetCursor) :
    Option (Message × SetCursor × Bool) :=
  let (msg, cursor) := setMessage dev bufsize cursor
  some (msg, cursor, cursor.peer.isEmpty)

/-- The messages that `kernel_set_device` sends, as long as none fails. -/
def setMessages (dev : Wgdevice) (bufsize fuel : Nat) : Option (List Message) :=
  collect (setCall dev bufsize) fuel 0 ⟨[], []⟩

/-- `kernel_set_device` on a device that is `current` when the transport is to be set: the messages,
or the error before the first. -/
def kernelSetDevice (current dev : Wgdevice) (bufsize fuel : Nat) :
    Option (Except Errno (List Message)) :=
  match checkTransport current dev with
  | none => some (.error .opnotsupp)
  | some dev => (setMessages dev bufsize fuel).map .ok

/-- The configuration in one message without a bound. -/
def wholeMessage (dev : Wgdevice) : Message :=
  deviceSetAttrs dev true ++
    [.peers (dev.peers.map fun peer =>
      peerSetHeader peer true ++ [.allowedips (peer.allowedips.map allowedIpSetAttrs)])]

/-! ## What the messages carry -/

/-- The nest of a fragment of a peer; without allowed IPs their nest may be missing. -/
def Encodes (f : Fragment Wgpeer Wgallowedip) (nest : List PeerAttr) : Prop :=
  nest = peerSetHeader f.group f.first ++ [.allowedips (f.items.map allowedIpSetAttrs)] ∨
    (nest = peerSetHeader f.group f.first ∧ f.items = [])

/-- A buffer with room for the attributes of the device together with the header of any one peer and
any one of its allowed IPs. -/
structure SetRoomy (dev : Wgdevice) (bufsize : Nat) : Prop where
  header : ∀ peer ∈ dev.peers,
    messageSize (deviceSetAttrs dev true ++ [.peers [peerSetHeader peer true]]) ≤ bufsize
  item : ∀ peer ∈ dev.peers, ∀ allowedip ∈ peer.allowedips,
    messageSize (deviceSetAttrs dev true ++
      [.peers [peerSetHeader peer true ++ [.allowedips [allowedIpSetAttrs allowedip]]]]) ≤ bufsize

/-- The same for a message of which a part is written. -/
structure SetRoom (bufsize used : Nat) (peer : Wgpeer) (first : Bool) : Prop where
  header : used + peerSize (peerSetHeader peer first) ≤ bufsize
  item : ∀ allowedip ∈ peer.allowedips,
    used + peerSize (peerSetHeader peer first ++ [.allowedips [allowedIpSetAttrs allowedip]]) ≤
      bufsize

theorem putAllowedips_spec (bufsize : Nat) (items : List Wgallowedip) (used : Nat) :
    ∃ xs, items = xs ++ (putAllowedips bufsize items used).2.2 ∧
      (putAllowedips bufsize items used).1 = xs.map allowedIpSetAttrs ∧
      (∀ item ∈ items.head?, used + allowedIpSize (allowedIpSetAttrs item) ≤ bufsize →
        xs ≠ []) := by
  induction items generalizing used with
  | nil => exact ⟨[], rfl, rfl, by simp⟩
  | cons item rest ih =>
    cases hput : putAll bufsize
        (nlaHdrlen :: (allowedIpSetAttrs item).map AllowedIpAttr.size) used with
    | none =>
      refine ⟨[], by simp [putAllowedips, hput], by simp [putAllowedips, hput], ?_⟩
      rintro _ ⟨⟩ hfits
      rw [putAll_eq_some_of_le hfits] at hput
      cases hput
    | some used' =>
      obtain ⟨xs, hsplit, hnests, -⟩ := ih used'
      refine ⟨item :: xs, ?_, ?_, by simp⟩
      · simpa [putAllowedips, hput] using hsplit
      · simp [putAllowedips, hput, hnests]

/-- The peers to write with their allowed IPs to write. -/
def setGroups : List Wgpeer → List Wgallowedip → List (Wgpeer × List Wgallowedip)
  | [], _ => []
  | peer :: rest, allowedip =>
      (peer, if allowedip = [] then peer.allowedips else allowedip) ::
        rest.map fun q => (q, q.allowedips)

theorem setGroups_nil (peers : List Wgpeer) :
    setGroups peers [] = peers.map fun q => (q, q.allowedips) := by
  cases peers <;> simp [setGroups]

/-- The allowed IPs to continue with are of the peer to continue with. -/
def Pending (peers : List Wgpeer) (allowedip : List Wgallowedip) : Prop :=
  (peers = [] → allowedip = []) ∧ ∀ peer ∈ peers.head?, allowedip ⊆ peer.allowedips

theorem Pending.nil (peers : List Wgpeer) : Pending peers [] := by
  refine ⟨fun _ => rfl, fun peer _ => ?_⟩
  exact List.nil_subset _

/-- The allowed IPs of a peer that are to be written. -/
def itemsFrom (peer : Wgpeer) (allowedip : List Wgallowedip) : List Wgallowedip :=
  if allowedip = [] then peer.allowedips else allowedip

theorem itemsFrom_subset {peer : Wgpeer} {allowedip : List Wgallowedip}
    (h : allowedip ⊆ peer.allowedips) : itemsFrom peer allowedip ⊆ peer.allowedips := by
  unfold itemsFrom
  split
  · exact List.Subset.refl _
  · exact h

/-- A peer is cancelled only without room for its header. Else a fragment of it is written, which
makes progress if there is room for an allowed IP. -/
theorem putPeer_spec {bufsize used : Nat} {peer : Wgpeer} {allowedip : List Wgallowedip}
    (hsub : allowedip ⊆ peer.allowedips) :
    (putPeer bufsize peer used allowedip = .cancelled ∧
        ¬ SetRoom bufsize used peer allowedip.isEmpty) ∨
      ∃ nest xs ys, itemsFrom peer allowedip = xs ++ ys ∧
        Encodes ⟨peer, allowedip.isEmpty, xs⟩ nest ∧
        ((ys = [] ∧ ∃ used', putPeer bufsize peer used allowedip = .done nest used' []) ∨
          (ys ≠ [] ∧ putPeer bufsize peer used allowedip = .cut nest ys)) ∧
        (SetRoom bufsize used peer allowedip.isEmpty → itemsFrom peer allowedip ≠ [] →
          xs ≠ []) := by
  unfold putPeer
  dsimp only
  split
  · next hput =>
    left
    refine ⟨rfl, fun h => ?_⟩
    rw [putAll_eq_some_of_le h.header] at hput
    cases hput
  next filled hput =>
  right
  have hfilled : filled = used + peerSize (peerSetHeader peer allowedip.isEmpty) :=
    eq_of_putAll_eq_some hput
  split
  · next hnil =>
    obtain rfl : allowedip = [] := List.subset_nil.mp (hnil ▸ hsub)
    have hitems : itemsFrom peer [] = [] := hnil
    exact ⟨_, [], [], hitems, .inr ⟨rfl, rfl⟩, .inl ⟨rfl, _, rfl⟩, fun _ hne => absurd hitems hne⟩
  next hnil =>
  rw [← itemsFrom]
  have hne : itemsFrom peer allowedip ≠ [] := by
    unfold itemsFrom
    split
    · exact hnil
    · assumption
  obtain ⟨item, rest, hhead⟩ := List.exists_cons_of_ne_nil hne
  have hroom (h : SetRoom bufsize used peer allowedip.isEmpty) :
      filled + nlaHdrlen + allowedIpSize (allowedIpSetAttrs item) ≤ bufsize := by
    have hmem : item ∈ peer.allowedips := by
      apply itemsFrom_subset hsub
      rw [hhead]
      exact List.mem_cons_self
    have hone := h.item item hmem
    rw [peerSize_append_allowedips] at hone
    simp only [List.map_cons, List.map_nil, List.sum_cons, List.sum_nil] at hone
    omega
  split
  · next hnest =>
    refine ⟨_, [], _, rfl, .inr ⟨rfl, rfl⟩, .inr ⟨hne, rfl⟩, fun h _ => ?_⟩
    have := hroom h
    rw [put, if_pos (by omega)] at hnest
    cases hnest
  next filled' hnest =>
  have hfilled' : filled' = filled + nlaHdrlen := eq_of_put_eq_some hnest
  obtain ⟨xs, hsplit, hnests, hprogress⟩ :=
    putAllowedips_spec bufsize (itemsFrom peer allowedip) filled'
  have hmove (h : SetRoom bufsize used peer allowedip.isEmpty) : xs ≠ [] := by
    apply hprogress item (by rw [hhead]; rfl)
    rw [hfilled']
    exact hroom h
  split
  · next nests used' hr =>
    rw [hr] at hsplit hnests
    refine ⟨_, xs, [], hsplit, .inl ?_, .inl ⟨rfl, used', rfl⟩, fun h _ => hmove h⟩
    rw [show nests = _ from hnests]
  · next nests used' left hleft hr =>
    rw [hr] at hsplit hnests
    refine ⟨_, xs, left, hsplit, .inl ?_, .inr ⟨fun hnil => hleft hnil, rfl⟩, fun h _ => hmove h⟩
    rw [show nests = _ from hnests]

/-- What the loop over the peers emits. -/
theorem putPeers_spec {bufsize : Nat} (peers : List Wgpeer) (used : Nat)
    (allowedip : List Wgallowedip) (hpending : Pending peers allowedip)
    (hroom : ∀ peer ∈ peers.head?, allowedip ≠ [] → SetRoom bufsize used peer false) :
    ∃ fs, List.Forall₂ Encodes fs (putPeers bufsize peers used allowedip).1 ∧
      (((putPeers bufsize peers used allowedip).2.peer = [] ∧
          Emits ⟨!allowedip.isEmpty, setGroups peers allowedip⟩ fs ⟨false, []⟩) ∨
        ((putPeers bufsize peers used allowedip).2.peer ≠ [] ∧
          (putPeers bufsize peers used allowedip).2.peer <:+ peers ∧
          Pending (putPeers bufsize peers used allowedip).2.peer
            (putPeers bufsize peers used allowedip).2.allowedip ∧
          Emits ⟨!allowedip.isEmpty, setGroups peers allowedip⟩ fs
            ⟨!(putPeers bufsize peers used allowedip).2.allowedip.isEmpty,
              setGroups (putPeers bufsize peers used allowedip).2.peer
                (putPeers bufsize peers used allowedip).2.allowedip⟩)) ∧
      ∀ peer ∈ peers.head?, SetRoom bufsize used peer allowedip.isEmpty → fs ≠ [] := by
  induction peers generalizing used allowedip with
  | nil =>
    refine ⟨[], .nil, .inl ⟨rfl, ?_⟩, by simp⟩
    rw [hpending.1 rfl]
    exact .nil _
  | cons peer rest ih =>
    have hsub : allowedip ⊆ peer.allowedips := hpending.2 peer rfl
    have hgroups : setGroups (peer :: rest) allowedip =
        (peer, itemsFrom peer allowedip) :: rest.map fun q => (q, q.allowedips) := rfl
    rcases @putPeer_spec bufsize used peer allowedip hsub with
      ⟨hr, hfull⟩ | ⟨nest, xs, ys, hsplit, hencodes, hend, hprogress⟩
    · have hputs : putPeers bufsize (peer :: rest) used allowedip =
          ([], ⟨peer :: rest, allowedip⟩) := by
        rw [putPeers, hr]
      rw [hputs]
      refine ⟨[], .nil, .inr ⟨List.cons_ne_nil _ _, List.suffix_refl _, hpending, .nil _⟩, ?_⟩
      rintro _ ⟨⟩ h
      exact absurd h hfull
    -- A continued peer makes progress, since its message has room for one allowed IP.
    have hstarted : (!allowedip.isEmpty) = true → xs ≠ [] := by
      intro hsome
      have hne : allowedip ≠ [] := by simpa using hsome
      have h := hroom peer rfl hne
      rw [← List.isEmpty_eq_false_iff.mpr hne] at h
      exact hprogress h (by simp [itemsFrom, hne])
    rcases hend with ⟨rfl, used', hr⟩ | ⟨hys, hr⟩
    · rw [List.append_nil] at hsplit
      have hputs : putPeers bufsize (peer :: rest) used allowedip =
          (nest :: (putPeers bufsize rest used' []).1, (putPeers bufsize rest used' []).2) := by
        rw [putPeers, hr]
      have hstep : Step ⟨!allowedip.isEmpty, setGroups (peer :: rest) allowedip⟩
          ⟨peer, allowedip.isEmpty, xs⟩ ⟨false, setGroups rest []⟩ := by
        have hfinish := @Step.finish _ _ _ peer xs (rest.map fun q => (q, q.allowedips)) hstarted
        rw [Bool.not_not] at hfinish
        rwa [hgroups, hsplit, setGroups_nil]
      obtain ⟨fs, hall, htail, -⟩ := ih used' [] (.nil rest) (by simp)
      rw [hputs]
      refine ⟨⟨peer, allowedip.isEmpty, xs⟩ :: fs, .cons hencodes hall, ?_, by simp⟩
      rcases htail with ⟨hdone, hemits⟩ | ⟨hcut, hsuffix, hleft, hemits⟩
      · exact .inl ⟨hdone, .cons hstep hemits⟩
      · exact .inr ⟨hcut, hsuffix.trans (List.suffix_cons _ _), hleft, .cons hstep hemits⟩
    · have hputs : putPeers bufsize (peer :: rest) used allowedip =
          ([nest], ⟨peer :: rest, ys⟩) := by
        rw [putPeers, hr]
      have hysSub : ys ⊆ peer.allowedips := by
        intro y hy
        apply itemsFrom_subset hsub
        rw [hsplit]
        exact List.mem_append_right _ hy
      rw [hputs]
      refine ⟨[⟨peer, allowedip.isEmpty, xs⟩], .cons hencodes .nil,
        .inr ⟨List.cons_ne_nil _ _, List.suffix_refl _, ?_, ?_⟩, by simp⟩
      · refine ⟨fun h => absurd h (List.cons_ne_nil _ _), ?_⟩
        rintro _ ⟨⟩
        exact hysSub
      · have hleft : setGroups (peer :: rest) ys =
            (peer, ys) :: rest.map fun q => (q, q.allowedips) := by
          rw [setGroups, if_neg hys]
        have hpart := @Step.part _ _ _ peer xs ys (rest.map fun q => (q, q.allowedips)) hstarted
        rw [Bool.not_not] at hpart
        rw [hgroups, hsplit, hleft, List.isEmpty_eq_false_iff.mpr hys]
        exact .single hpart

/-! ## The messages of a configuration -/

/-- A message with the nests of some fragments. -/
def SetCarries (dev : Wgdevice) (first : Bool) (msg : Message)
    (fs : List (Fragment Wgpeer Wgallowedip)) : Prop :=
  (msg = deviceSetAttrs dev first ∧ fs = []) ∨
    ∃ nests, msg = deviceSetAttrs dev first ++ [.peers nests] ∧ List.Forall₂ Encodes fs nests

theorem messageSize_deviceSetAttrs_le (dev : Wgdevice) (first : Bool) :
    messageSize (deviceSetAttrs dev first) ≤ messageSize (deviceSetAttrs dev true) := by
  cases first with
  | true => exact le_rfl
  | false => simp [messageSize, deviceSetAttrs]

theorem peerSetFlags_of_false {peer : Wgpeer} (h : (peerSetFlags peer false != 0) = true) :
    (peerSetFlags peer true != 0) = true := by
  revert h
  unfold peerSetFlags
  cases peer.removeMe <;> cases peer.replaceAllowedips <;> decide

theorem peerSize_setHeader_le (peer : Wgpeer) (first : Bool) :
    peerSize (peerSetHeader peer first) ≤ peerSize (peerSetHeader peer true) := by
  cases first with
  | true => exact le_rfl
  | false =>
    cases h : peerSetFlags peer false != 0 with
    | false =>
      simp only [peerSetHeader, peerSize, nestSize, attrIf, h, List.map_cons, List.sum_cons]
      simp
    | true =>
      have hflags (flags : BitVec 32) : (PeerAttr.flags flags).size = nlaTotalSize 4 := rfl
      simp only [peerSetHeader, peerSize, nestSize, attrIf, h, peerSetFlags_of_false h,
        List.map_cons, List.sum_cons, List.map_append, List.sum_append]
      simp [hflags]

theorem SetRoomy.room {dev : Wgdevice} {bufsize : Nat} (h : SetRoomy dev bufsize) {peer : Wgpeer}
    (hpeer : peer ∈ dev.peers) (first first' : Bool) :
    SetRoom bufsize (messageSize (deviceSetAttrs dev first) + nlaHdrlen) peer first' := by
  have hattrs := messageSize_deviceSetAttrs_le dev first
  have hsize := peerSize_setHeader_le peer first'
  constructor
  · have hheader := h.header peer hpeer
    rw [messageSize_append_peers] at hheader
    simp only [List.map_cons, List.map_nil, List.sum_cons, List.sum_nil] at hheader
    omega
  · intro item hitem
    have hone := h.item peer hpeer item hitem
    rw [messageSize_append_peers] at hone
    simp only [List.map_cons, List.map_nil, List.sum_cons, List.sum_nil,
      peerSize_append_allowedips] at hone ⊢
    omega

/-- The peers and allowed IPs that are left after a message. -/
def setLeft (c : SetCursor) : Cursor Wgpeer Wgallowedip :=
  ⟨!c.allowedip.isEmpty, setGroups c.peer c.allowedip⟩

/-- The pointers after a message that was cut. -/
structure SetResumes (dev : Wgdevice) (c : SetCursor) : Prop where
  peer : c.peer ≠ []
  suffix : c.peer <:+ dev.peers
  pending : Pending c.peer c.allowedip

variable {dev : Wgdevice} {bufsize : Nat}

/-- A message from the given peer on. -/
theorem putPeers_message (hroomy : SetRoomy dev bufsize) {peers : List Wgpeer}
    {allowedip : List Wgallowedip} (hne : peers ≠ []) (hsuffix : peers <:+ dev.peers)
    (hpending : Pending peers allowedip) (first : Bool) {nests : List (List PeerAttr)}
    {c : SetCursor} (hputs : putPeers bufsize peers
      (messageSize (deviceSetAttrs dev first) + nlaHdrlen) allowedip = (nests, c)) :
    ∃ fs, SetCarries dev first (deviceSetAttrs dev first ++ [.peers nests]) fs ∧ fs ≠ [] ∧
      (c.peer = [] → Emits ⟨!allowedip.isEmpty, setGroups peers allowedip⟩ fs ⟨false, []⟩) ∧
      (c.peer ≠ [] → SetResumes dev c ∧
        Emits ⟨!allowedip.isEmpty, setGroups peers allowedip⟩ fs (setLeft c)) := by
  have hroom : ∀ peer ∈ peers.head?, ∀ first', SetRoom bufsize
      (messageSize (deviceSetAttrs dev first) + nlaHdrlen) peer first' := fun peer hpeer first' =>
    hroomy.room (hsuffix.subset (List.mem_of_mem_head? hpeer)) first first'
  obtain ⟨fs, hall, hend, hsome⟩ := putPeers_spec peers
    (messageSize (deviceSetAttrs dev first) + nlaHdrlen) allowedip hpending
    (fun peer hpeer _ => hroom peer hpeer false)
  rw [hputs] at hall hend
  obtain ⟨peer, rest, rfl⟩ := List.exists_cons_of_ne_nil hne
  refine ⟨fs, .inr ⟨nests, rfl, hall⟩, hsome peer rfl (hroom peer rfl _), ?_, ?_⟩
  · intro hdone
    rcases hend with ⟨-, hemits⟩ | ⟨hcut, -⟩
    · exact hemits
    · exact absurd hdone hcut
  · intro hcut
    rcases hend with ⟨hdone, -⟩ | ⟨-, hsuffix', hleft, hemits⟩
    · exact absurd hdone hcut
    · exact ⟨⟨hcut, hsuffix'.trans hsuffix, hleft⟩, hemits⟩

/-- A message after the first. -/
theorem setCall_spec (hroomy : SetRoomy dev bufsize) (i : Nat) {c : SetCursor}
    (h : SetResumes dev c) :
    ∃ m c' done fs, setCall dev bufsize i c = some (m, c', done) ∧ SetCarries dev false m fs ∧
      (done = true → Emits (setLeft c) fs ⟨false, []⟩) ∧
      (done = false → SetResumes dev c' ∧ fs ≠ [] ∧ Emits (setLeft c) fs (setLeft c')) := by
  have hnil : dev.peers ≠ [] := by
    rintro hnil
    exact h.peer (List.suffix_nil.mp (hnil ▸ h.suffix))
  cases hputs : putPeers bufsize c.peer
      (messageSize (deviceSetAttrs dev false) + nlaHdrlen) c.allowedip with
  | mk nests c' =>
  have hmsg : setMessage dev bufsize c = (deviceSetAttrs dev false ++ [.peers nests], c') := by
    simp [setMessage, hnil, h.peer, List.isEmpty_eq_false_iff.mpr h.peer, hputs]
  obtain ⟨fs, hcarries, hne, hdone, hcut⟩ := putPeers_message hroomy h.peer h.suffix h.pending
    false hputs
  refine ⟨_, c', _, fs, by rw [setCall, hmsg], hcarries, ?_, ?_⟩
  · intro hd
    exact hdone (List.isEmpty_iff.mp hd)
  · intro hd
    obtain ⟨hres, hem⟩ := hcut (List.isEmpty_eq_false_iff.mp hd)
    exact ⟨hres, hne, hem⟩

/-- The messages end, and carry every peer once, in order, with its allowed IPs once, in order. Only
the first has the attributes of the device. -/
theorem setMessages_covers (hroomy : SetRoomy dev bufsize) :
    ∃ fuel msg rest fs fss, setMessages dev bufsize fuel = some (msg :: rest) ∧
      SetCarries dev true msg fs ∧ List.Forall₂ (SetCarries dev false) rest fss ∧
      Covers (dev.peers.map fun p => (p, p.allowedips)) (fs ++ fss.flatten) := by
  have hcall {i : Nat} {c c' : SetCursor} {msg : Message}
      (h : setMessage dev bufsize c = (msg, c')) :
      setCall dev bufsize i c = some (msg, c', c'.peer.isEmpty) := by
    rw [setCall, h]
  by_cases hnil : dev.peers = []
  · have hmsg : setMessage dev bufsize ⟨[], []⟩ = (deviceSetAttrs dev true, ⟨[], []⟩) := by
      simp [setMessage, hnil]
    refine ⟨1, _, [], [], [], ?_, .inl ⟨rfl, rfl⟩, .nil, ?_⟩
    · rw [setMessages, collect, hcall hmsg]
      rfl
    · rw [hnil]
      exact .nil
  cases hputs : putPeers bufsize dev.peers
      (messageSize (deviceSetAttrs dev true) + nlaHdrlen) [] with
  | mk nests c =>
  have hfirst : setMessage dev bufsize ⟨[], []⟩ =
      (deviceSetAttrs dev true ++ [.peers nests], c) := by
    simp [setMessage, hnil, hputs]
  obtain ⟨fs, hcarries, -, hdone, hcut⟩ := putPeers_message hroomy hnil (List.suffix_refl _)
    (.nil _) true hputs
  rw [setGroups_nil] at hdone hcut
  by_cases hend : c.peer = []
  · refine ⟨1, _, [], fs, [], ?_, hcarries, .nil, ?_⟩
    · rw [setMessages, collect, hcall hfirst, hend]
      rfl
    · simpa using (hdone hend).covers
  obtain ⟨hresumes, hemits⟩ := hcut hend
  obtain ⟨rest, fss, hrest, hall, htail⟩ := collect_emits (fun i _ h => setCall_spec hroomy i h) 1
    hresumes (Nat.lt_succ_self (setLeft c).weight)
  refine ⟨(setLeft c).weight + 2, _, rest, fs, fss, ?_, hcarries, hall,
    (hemits.append htail).covers⟩
  rw [setMessages, collect, hcall hfirst, List.isEmpty_eq_false_iff.mpr hend]
  simp only [hrest, Option.map_some]

end Tools

end WgTcp
