import WgTcp.Netlink.Device
import WgTcp.Foundation.Fragments

/-!
# Dumping a device

`WG_CMD_GET_DEVICE` writes a device into as many messages as it takes, each into
a buffer of its own. Between two calls it remembers the last peer that it wrote
completely and, if it stopped inside a peer, the allowed IP that did not fit.
The messages carry the peers as fragments: each call emits the fragments from
where the previous one stopped.
-/

namespace WgTcp

namespace Netlink

open AllowedIps Fragments

/-- `struct dump_ctx`, for a fixed device. -/
structure DumpCtx where
  nextPeer : Option PeerId
  allowedipsSeq : Nat
  nextAllowedip : Option Item

def DumpCtx.start : DumpCtx := ⟨none, 0, none⟩

def Endpoint.sockAddr : Endpoint → Option SockAddr
  | .unspec => none
  | .inet port addr _ _ => some (.inet port addr)
  | .inet6 port addr scopeId _ => some (.inet6 port addr scopeId)

/-- The attributes that `get_allowedips` writes for a node. -/
def allowedIpAttrs (T : Table) (item : Item) : List AllowedIpAttr :=
  let (ip, cidr) := wgAllowedipsReadNode ((T.trie item.1).data item.2)
  [.cidrMask (BitVec.ofNat 8 cidr), .family (af item.1), .ipaddr ip]

/-- `get_allowedips`: the new length of the buffer. -/
def getAllowedips (capacity : Nat) (attrs : List AllowedIpAttr) (used : Nat) : Option Nat :=
  putAll capacity (nlaHdrlen :: attrs.map AllowedIpAttr.size) used

/-- The loop over the allowed IPs of a peer: the nests, the new length of the buffer, and the node
that did not fit. -/
def getAllowedipsLoop (T : Table) (capacity : Nat) :
    List Item → Nat → List (List AllowedIpAttr) × Nat × Option Item
  | [], used => ([], used, none)
  | item :: rest, used =>
      match getAllowedips capacity (allowedIpAttrs T item) used with
      | none => ([], used, some item)
      | some used =>
          let (nests, used, left) := getAllowedipsLoop T capacity rest used
          (allowedIpAttrs T item :: nests, used, left)

namespace WgDevice

variable (d : WgDevice)

/-- With TCP, the configured or learned target is dumped, if there is one. -/
def dumpEndpoint (peer : WgPeer) : Option SockAddr :=
  if d.transport = .tcp ∧ peer.addressing.peerEndpointSet = true then
    Endpoint.sockAddr peer.addressing.peerEndpoint
  else Endpoint.sockAddr peer.addressing.endpoint

/-- The attributes of a peer before its allowed IPs; a continued peer has the key only. -/
def peerHeader (peer : WgPeer) (first : Bool) : List PeerAttr :=
  .publicKey peer.remoteStatic ::
    if first then
      [.presharedKey peer.presharedKey, .lastHandshakeTime peer.walltimeLastHandshake,
        .persistentKeepaliveInterval peer.persistentKeepaliveInterval, .txBytes peer.txBytes,
        .rxBytes peer.rxBytes, .protocolVersion 1] ++
        (d.dumpEndpoint peer).toList.map .endpoint
    else []

/-- What `get_peer` leaves: the nest, unless it was cancelled, and whether it returned 0. -/
structure GetPeer where
  nest : Option (List PeerAttr)
  used : Nat
  ctx : DumpCtx
  done : Bool

def getPeer (capacity : Nat) (peer : WgPeer) (used : Nat) (ctx : DumpCtx) : GetPeer :=
  let header := d.peerHeader peer ctx.nextAllowedip.isNone
  match putAll capacity (nlaHdrlen :: header.map PeerAttr.size) used with
  | none => ⟨none, used, ctx, false⟩
  | some filled =>
      let list := d.peerAllowedips.lists peer.id
      match ctx.nextAllowedip.or list.head? with
      | none => ⟨some header, filled, { ctx with nextAllowedip := none, allowedipsSeq := 0 }, true⟩
      | some node =>
          let ctx :=
            if ctx.allowedipsSeq = 0 then { ctx with allowedipsSeq := d.peerAllowedips.seq }
            else ctx
          if ctx.allowedipsSeq ≠ d.peerAllowedips.seq then
            ⟨some header, filled, { ctx with nextAllowedip := none, allowedipsSeq := 0 }, true⟩
          else
            match put capacity nlaHdrlen filled with
            | none => ⟨none, used, ctx, false⟩
            | some filled =>
                let (nests, filled, left) :=
                  getAllowedipsLoop d.peerAllowedips capacity (list.dropWhile (· != node)) filled
                match left with
                | some _ =>
                    ⟨some (header ++ [.allowedips nests]), filled,
                      { ctx with nextAllowedip := left }, false⟩
                | none =>
                    ⟨some (header ++ [.allowedips nests]), filled,
                      { ctx with nextAllowedip := none, allowedipsSeq := 0 }, true⟩

/-- What the loop over the peers leaves: `cursor` is `next_peer_cursor`. -/
structure DumpPeers where
  nests : List (List PeerAttr)
  ctx : DumpCtx
  cursor : Option PeerId
  done : Bool

def dumpPeers (capacity : Nat) : List WgPeer → Nat → DumpCtx → Option PeerId → DumpPeers
  | [], _, ctx, cursor => ⟨[], ctx, cursor, true⟩
  | peer :: rest, used, ctx, cursor =>
      let r := d.getPeer capacity peer used ctx
      if r.done then
        let r' := dumpPeers capacity rest r.used r.ctx (some peer.id)
        { r' with nests := r.nest.toList ++ r'.nests }
      else ⟨r.nest.toList, r.ctx, cursor, false⟩

def deviceAttrs : List DeviceAttr :=
  [.listenPort d.incomingPort, .fwmark d.fwmark, .ifindex d.ifindex, .ifname d.name.chars,
    .transport (transportByte d.transport)] ++
    if d.hasIdentity then [.privateKey d.staticPrivate, .publicKey d.staticPublic] else []

/-- The peers behind the cursor. -/
def peersAfter : Option PeerId → List WgPeer
  | none => d.peerList
  | some id => (d.peerList.dropWhile fun p => p.id != id).drop 1

/-- `wg_get_device_dump`: the message, the context for the next call, and whether there is none. -/
def wgGetDeviceDump (capacity : Nat) (ctx : DumpCtx) : Option (Message × DumpCtx × Bool) :=
  let attrs := if ctx.nextPeer.isNone then d.deviceAttrs else []
  match putAll capacity (msgHdrlen :: (attrs.map DeviceAttr.size ++ [nlaHdrlen])) 0 with
  | none => none
  | some used =>
      if d.peerList.isEmpty || ctx.nextPeer.any (fun id => d.peerList.all fun p => p.id != id) then
        some (attrs, { ctx with nextPeer := none }, true)
      else
        let r := d.dumpPeers capacity (d.peersAfter ctx.nextPeer) used ctx ctx.nextPeer
        some (attrs ++ [.peers r.nests],
          { r.ctx with nextPeer := if r.done then none else r.cursor }, r.done)

/-- All messages of a dump; the `i`th buffer has capacity `capacities i`. -/
def dump (capacities : Nat → Nat) (fuel : Nat) : Option (List Message) :=
  collect (fun i ctx => d.wgGetDeviceDump (capacities i) ctx) fuel 0 .start

end WgDevice

/-! ## Fragments -/

/-- The nest of a fragment of a peer. -/
def encode (d : WgDevice) (f : Fragment WgPeer Item) : List PeerAttr :=
  d.peerHeader f.group f.first ++
    if d.peerAllowedips.lists f.group.id = [] then []
    else [.allowedips (f.items.map (allowedIpAttrs d.peerAllowedips))]

/-- The allowed IPs of a peer from the one that did not fit. -/
def remaining (d : WgDevice) (peer : WgPeer) : Option Item → List Item
  | none => d.peerAllowedips.lists peer.id
  | some node => (d.peerAllowedips.lists peer.id).dropWhile (· != node)

/-- The loop writes the first of the allowed IPs, and the first of all if it fits. -/
theorem getAllowedipsLoop_spec (T : Table) (capacity : Nat) (items : List Item) (used : Nat) :
    ∃ xs ys, items = xs ++ ys ∧
      (getAllowedipsLoop T capacity items used).1 = xs.map (allowedIpAttrs T) ∧
      (getAllowedipsLoop T capacity items used).2.2 = ys.head? ∧
      (∀ item ∈ items.head?, used + allowedIpSize (allowedIpAttrs T item) ≤ capacity →
        xs ≠ []) := by
  induction items generalizing used with
  | nil => exact ⟨[], [], rfl, rfl, rfl, by simp⟩
  | cons item rest ih =>
    cases hput : getAllowedips capacity (allowedIpAttrs T item) used with
    | none =>
      refine ⟨[], item :: rest, rfl, by simp [getAllowedipsLoop, hput],
        by simp [getAllowedipsLoop, hput], ?_⟩
      rintro _ ⟨⟩ hfits
      rw [getAllowedips, putAll_eq_some_of_le hfits] at hput
      cases hput
    | some used' =>
      obtain ⟨xs, ys, hsplit, hnests, hleft, -⟩ := ih used'
      refine ⟨item :: xs, ys, by rw [hsplit, List.cons_append], ?_, ?_, by simp⟩
      · simp [getAllowedipsLoop, hput, hnests]
      · simp [getAllowedipsLoop, hput, hleft]

namespace WgDevice

variable {d : WgDevice} {capacity used : Nat} {peer : WgPeer} {ctx : DumpCtx}

/-- The buffer has room for the header of the peer, and for it together with any one allowed IP. -/
structure Room (d : WgDevice) (capacity used : Nat) (peer : WgPeer) (first : Bool) : Prop where
  header : used + peerSize (d.peerHeader peer first) ≤ capacity
  item : ∀ item ∈ d.peerAllowedips.lists peer.id,
    used + peerSize (d.peerHeader peer first ++
      [.allowedips [allowedIpAttrs d.peerAllowedips item]]) ≤ capacity

/-- The sequence number in the context is unset or that of the table. -/
def SeqOk (d : WgDevice) (ctx : DumpCtx) : Prop :=
  ctx.allowedipsSeq = 0 ∨ ctx.allowedipsSeq = d.peerAllowedips.seq

/-- The call wrote a fragment of the peer: the rest of it, or a part with something left. -/
structure Wrote (d : WgDevice) (peer : WgPeer) (ctx : DumpCtx) (r : GetPeer) (xs ys : List Item) :
    Prop where
  split : remaining d peer ctx.nextAllowedip = xs ++ ys
  nest : r.nest = some (encode d ⟨peer, ctx.nextAllowedip.isNone, xs⟩)
  next : r.ctx.nextAllowedip = ys.head?
  done : r.done = ys.isEmpty

/-- The allowed IPs that the loop of `get_peer` starts with. -/
theorem dropWhile_eq_remaining {node : Item}
    (h : ctx.nextAllowedip.or (d.peerAllowedips.lists peer.id).head? = some node) :
    (d.peerAllowedips.lists peer.id).dropWhile (· != node) =
      remaining d peer ctx.nextAllowedip := by
  cases hnext : ctx.nextAllowedip with
  | some next =>
    rw [hnext] at h
    cases h
    rfl
  | none =>
    rw [hnext, Option.none_or] at h
    obtain ⟨rest, hlist⟩ := List.head?_eq_some_iff.mp h
    simp [remaining, hlist]

theorem getPeer_spec (hseq : d.SeqOk ctx)
    (hnext : ∀ node ∈ ctx.nextAllowedip, node ∈ d.peerAllowedips.lists peer.id) :
    (d.getPeer capacity peer used ctx).ctx.nextPeer = ctx.nextPeer ∧
      d.SeqOk (d.getPeer capacity peer used ctx).ctx ∧
      (((d.getPeer capacity peer used ctx).nest = none ∧
          (d.getPeer capacity peer used ctx).done = false ∧
          (d.getPeer capacity peer used ctx).ctx.nextAllowedip = ctx.nextAllowedip ∧
          ¬ d.Room capacity used peer ctx.nextAllowedip.isNone) ∨
        ∃ xs ys, d.Wrote peer ctx (d.getPeer capacity peer used ctx) xs ys ∧
          (d.Room capacity used peer ctx.nextAllowedip.isNone →
            remaining d peer ctx.nextAllowedip ≠ [] → xs ≠ [])) := by
  have hroom (h : d.Room capacity used peer ctx.nextAllowedip.isNone) :
      putAll capacity (nlaHdrlen :: (d.peerHeader peer ctx.nextAllowedip.isNone).map PeerAttr.size)
        used = some (used + peerSize (d.peerHeader peer ctx.nextAllowedip.isNone)) :=
    putAll_eq_some_of_le h.header
  unfold getPeer
  dsimp only
  split
  · next hput =>
    refine ⟨rfl, hseq, .inl ⟨rfl, rfl, rfl, fun h => ?_⟩⟩
    rw [hroom h] at hput
    cases hput
  next filled hput =>
  have hfilled : filled = used + peerSize (d.peerHeader peer ctx.nextAllowedip.isNone) :=
    eq_of_putAll_eq_some hput
  split
  · next hnode =>
    obtain ⟨hnone, hhead⟩ := Option.or_eq_none_iff.mp hnode
    have hlist : d.peerAllowedips.lists peer.id = [] := List.head?_eq_none_iff.mp hhead
    refine ⟨rfl, .inl rfl, .inr ⟨[], [], ⟨?_, ?_, rfl, rfl⟩, fun _ hne => ?_⟩⟩
    · simp [hnone, remaining, hlist]
    · simp [encode, hlist]
    · simp [hnone, remaining, hlist] at hne
  next node hnode =>
  have hmem : node ∈ d.peerAllowedips.lists peer.id := by
    rcases Option.or_eq_some_iff.mp hnode with hsome | ⟨-, hhead⟩
    · exact hnext node hsome
    · exact List.mem_of_mem_head? hhead
  have hlist : d.peerAllowedips.lists peer.id ≠ [] := List.ne_nil_of_mem hmem
  -- The sequence number is that of the table, so that the peer is not cut short.
  have hsame : (if ctx.allowedipsSeq = 0 then
      { ctx with allowedipsSeq := d.peerAllowedips.seq } else ctx) =
      { ctx with allowedipsSeq := d.peerAllowedips.seq } := by
    split
    · rfl
    · next hne => rw [← hseq.resolve_left hne]
  rw [hsame]
  simp only [ne_eq, not_true_eq_false, if_false, dropWhile_eq_remaining hnode]
  split
  · next hput =>
    refine ⟨rfl, .inr rfl, .inl ⟨rfl, rfl, rfl, fun h => ?_⟩⟩
    have hitem := h.item node hmem
    rw [peerSize_append_allowedips] at hitem
    rw [put, if_pos (by omega)] at hput
    cases hput
  next filled' hput =>
  have hfilled' : filled' = filled + nlaHdrlen := eq_of_put_eq_some hput
  obtain ⟨xs, ys, hsplit, hnests, hleft, hne⟩ := getAllowedipsLoop_spec d.peerAllowedips capacity
    (remaining d peer ctx.nextAllowedip) filled'
  have hprogress (h : d.Room capacity used peer ctx.nextAllowedip.isNone)
      (hrem : remaining d peer ctx.nextAllowedip ≠ []) : xs ≠ [] := by
    obtain ⟨item, rest, hitems⟩ := List.exists_cons_of_ne_nil hrem
    apply hne item (by rw [hitems]; rfl)
    have hin : item ∈ d.peerAllowedips.lists peer.id := by
      have hsub : item ∈ remaining d peer ctx.nextAllowedip := by
        rw [hitems]
        exact List.mem_cons_self
      rw [← dropWhile_eq_remaining hnode] at hsub
      exact (List.dropWhile_sublist _).subset hsub
    have hitem := h.item item hin
    rw [peerSize_append_allowedips] at hitem
    simp only [List.map_cons, List.map_nil, List.sum_cons, List.sum_nil] at hitem
    omega
  have hencode : some (d.peerHeader peer ctx.nextAllowedip.isNone ++
      [.allowedips (xs.map (allowedIpAttrs d.peerAllowedips))]) =
      some (encode d ⟨peer, ctx.nextAllowedip.isNone, xs⟩) := by
    simp [encode, hlist]
  cases ys with
  | nil =>
    rw [List.head?_nil] at hleft
    simp only [hnests, hleft]
    exact ⟨trivial, .inl rfl, .inr ⟨xs, [], ⟨hsplit, hencode, rfl, rfl⟩, hprogress⟩⟩
  | cons node' ys =>
    rw [List.head?_cons] at hleft
    simp only [hnests, hleft]
    exact ⟨trivial, .inr rfl, .inr ⟨xs, node' :: ys, ⟨hsplit, hencode, rfl, rfl⟩, hprogress⟩⟩

/-- The peers to write with their allowed IPs to write. -/
def groups (d : WgDevice) : List WgPeer → Option Item → List (WgPeer × List Item)
  | [], _ => []
  | peer :: rest, next =>
      (peer, remaining d peer next) :: rest.map fun q => (q, d.peerAllowedips.lists q.id)

theorem groups_none (d : WgDevice) (peers : List WgPeer) :
    groups d peers none = peers.map fun q => (q, d.peerAllowedips.lists q.id) := by
  cases peers <;> rfl

theorem remaining_suffix (d : WgDevice) (peer : WgPeer) (next : Option Item) :
    remaining d peer next <:+ d.peerAllowedips.lists peer.id := by
  cases next with
  | none => exact List.suffix_refl _
  | some node => exact List.dropWhile_suffix _

theorem dropWhile_append_cons {α : Type*} [BEq α] [LawfulBEq α] {xs ys : List α}
    {a : α} (h : a ∉ xs) : (xs ++ a :: ys).dropWhile (· != a) = a :: ys := by
  rw [List.dropWhile_append_of_pos]
  · simp
  · intro x hx
    simpa using ne_of_mem_of_not_mem hx h

/-- A part of a list without repetitions is found again by its first element. -/
theorem remaining_some (h : (d.peerAllowedips.lists peer.id).Nodup) {next : Option Item}
    {node : Item} {xs ys : List Item} (hsplit : remaining d peer next = xs ++ node :: ys) :
    remaining d peer (some node) = node :: ys := by
  obtain ⟨pre, hpre⟩ := remaining_suffix d peer next
  rw [hsplit, ← List.append_assoc] at hpre
  rw [← hpre] at h
  rw [remaining, ← hpre, dropWhile_append_cons]
  exact fun hmem => (List.nodup_append.mp h).2.2 node hmem node List.mem_cons_self rfl

theorem remaining_ne_nil {node : Item} (h : node ∈ d.peerAllowedips.lists peer.id) :
    remaining d peer (some node) ≠ [] := by
  rw [remaining, ne_eq, List.dropWhile_eq_nil_iff]
  intro hall
  simpa using hall node h

theorem Valid.lists_nodup (h : d.Valid) (id : PeerId) : (d.peerAllowedips.lists id).Nodup := by
  obtain ⟨F, R, hF, -⟩ := h.table
  exact hF.lists_nodup id

/-- What the loop over the peers emits. -/
theorem dumpPeers_spec (hd : d.Valid) (peers : List WgPeer) (cursor : Option PeerId)
    (hseq : d.SeqOk ctx) (hempty : peers = [] → ctx.nextAllowedip = none)
    (hnext : ∀ peer ∈ peers.head?, ∀ node ∈ ctx.nextAllowedip,
      node ∈ d.peerAllowedips.lists peer.id)
    (hroom : ∀ peer ∈ peers.head?, ctx.nextAllowedip.isSome → d.Room capacity used peer false) :
    ∃ fs, (d.dumpPeers capacity peers used ctx cursor).nests = fs.map (encode d) ∧
      d.SeqOk (d.dumpPeers capacity peers used ctx cursor).ctx ∧
      (((d.dumpPeers capacity peers used ctx cursor).done = true ∧
          Emits ⟨ctx.nextAllowedip.isSome, groups d peers ctx.nextAllowedip⟩ fs ⟨false, []⟩) ∨
        ((d.dumpPeers capacity peers used ctx cursor).done = false ∧
          ∃ finished peer rest, peers = finished ++ peer :: rest ∧
            (d.dumpPeers capacity peers used ctx cursor).cursor =
              (finished.getLast?.map WgPeer.id).or cursor ∧
            (∀ node ∈ (d.dumpPeers capacity peers used ctx cursor).ctx.nextAllowedip,
              node ∈ d.peerAllowedips.lists peer.id) ∧
            Emits ⟨ctx.nextAllowedip.isSome, groups d peers ctx.nextAllowedip⟩ fs
              ⟨(d.dumpPeers capacity peers used ctx cursor).ctx.nextAllowedip.isSome,
                groups d (peer :: rest)
                  (d.dumpPeers capacity peers used ctx cursor).ctx.nextAllowedip⟩)) ∧
      ∀ peer ∈ peers.head?, d.Room capacity used peer ctx.nextAllowedip.isNone → fs ≠ [] := by
  induction peers generalizing used ctx cursor with
  | nil =>
    refine ⟨[], rfl, hseq, .inl ⟨rfl, ?_⟩, by simp⟩
    rw [hempty rfl]
    exact .nil _
  | cons peer rest ih =>
    have hpeer : ∀ node ∈ ctx.nextAllowedip, node ∈ d.peerAllowedips.lists peer.id :=
      hnext peer rfl
    obtain ⟨-, hseq', ⟨hnest, hdone, hsame, hfull⟩ | ⟨xs, ys, hwrote, hprogress⟩⟩ :=
      @getPeer_spec d capacity used peer ctx hseq hpeer
    · refine ⟨[], by simp [dumpPeers, hdone, hnest], by simpa [dumpPeers, hdone] using hseq',
        .inr ⟨by simp [dumpPeers, hdone], [], peer, rest, rfl, by simp [dumpPeers, hdone], ?_, ?_⟩,
        ?_⟩
      · simpa [dumpPeers, hdone, hsame] using hpeer
      · simpa [dumpPeers, hdone, hsame] using Emits.nil _
      · rintro _ ⟨⟩ h
        exact absurd h hfull
    -- A continued peer makes progress, since its message has room for one allowed IP.
    have hstarted : ctx.nextAllowedip.isSome = true → xs ≠ [] := by
      intro hsome
      obtain ⟨node, hnode⟩ := Option.isSome_iff_exists.mp hsome
      have h := hroom peer rfl hsome
      rw [hnode] at hprogress hpeer
      exact hprogress h (remaining_ne_nil (hpeer node rfl))
    have hfirst : ctx.nextAllowedip.isNone = !ctx.nextAllowedip.isSome := by
      cases ctx.nextAllowedip <;> rfl
    cases ys with
    | nil =>
      have hdone : (d.getPeer capacity peer used ctx).done = true := hwrote.done
      have hnone : (d.getPeer capacity peer used ctx).ctx.nextAllowedip = none := hwrote.next
      have hsplit := hwrote.split
      rw [List.append_nil] at hsplit
      obtain ⟨fs, hnests, hseqR, hend, -⟩ := @ih
        (d.getPeer capacity peer used ctx).used _ (some peer.id) hseq' (fun _ => hnone)
        (by simp [hnone]) (by simp [hnone])
      have hstep : Step ⟨ctx.nextAllowedip.isSome, groups d (peer :: rest) ctx.nextAllowedip⟩
          ⟨peer, ctx.nextAllowedip.isNone, xs⟩
          ⟨(d.getPeer capacity peer used ctx).ctx.nextAllowedip.isSome,
            groups d rest (d.getPeer capacity peer used ctx).ctx.nextAllowedip⟩ := by
        rw [groups, hsplit, hfirst, hnone, groups_none]
        exact .finish hstarted
      refine ⟨⟨peer, ctx.nextAllowedip.isNone, xs⟩ :: fs, ?_, ?_, ?_, by simp⟩
      · simp [dumpPeers, hdone, hwrote.nest, hnests]
      · simpa [dumpPeers, hdone] using hseqR
      · rcases hend with ⟨hall, hemits⟩ | ⟨hcut, finished, q, rest', hpeers, hcursor, hin, hemits⟩
        · left
          exact ⟨by simpa [dumpPeers, hdone] using hall, .cons hstep hemits⟩
        · right
          refine ⟨by simpa [dumpPeers, hdone] using hcut, peer :: finished, q, rest',
            by rw [hpeers, List.cons_append], ?_, by simpa [dumpPeers, hdone] using hin, ?_⟩
          · simp only [dumpPeers, hdone, if_true, hcursor]
            cases finished with
            | nil => rfl
            | cons a l => simp [List.getLast?_cons]
          · simpa [dumpPeers, hdone] using Emits.cons hstep hemits
    | cons node ys =>
      have hdone : (d.getPeer capacity peer used ctx).done = false := hwrote.done
      have hsome : (d.getPeer capacity peer used ctx).ctx.nextAllowedip = some node := hwrote.next
      refine ⟨[⟨peer, ctx.nextAllowedip.isNone, xs⟩], ?_, ?_,
        .inr ⟨?_, [], peer, rest, rfl, ?_, ?_, ?_⟩, by simp⟩
      · simp [dumpPeers, hdone, hwrote.nest]
      · simpa [dumpPeers, hdone] using hseq'
      · simp [dumpPeers, hdone]
      · simp [dumpPeers, hdone]
      · simp only [dumpPeers, hdone, Bool.false_eq_true, if_false, hsome]
        rintro _ ⟨⟩
        apply (remaining_suffix d peer ctx.nextAllowedip).subset
        rw [hwrote.split]
        simp
      · simp only [dumpPeers, hdone, Bool.false_eq_true, if_false, hsome, groups,
          remaining_some (hd.lists_nodup peer.id) hwrote.split, hwrote.split, hfirst]
        exact Emits.single (.part hstarted)

/-! ## Messages -/

/-- A buffer with room for the attributes of the device together with the header of any one peer and
any one of its allowed IPs. -/
structure Roomy (d : WgDevice) (capacity : Nat) : Prop where
  device : messageSize (d.deviceAttrs ++ [.peers []]) ≤ capacity
  header : ∀ peer ∈ d.peerList,
    messageSize (d.deviceAttrs ++ [.peers [d.peerHeader peer true]]) ≤ capacity
  item : ∀ peer ∈ d.peerList, ∀ item ∈ d.peerAllowedips.lists peer.id,
    messageSize (d.deviceAttrs ++ [.peers [d.peerHeader peer true ++
      [.allowedips [allowedIpAttrs d.peerAllowedips item]]]]) ≤ capacity

/-- The attributes of the device, which only the messages before the first complete peer carry. -/
def attrsAt (d : WgDevice) (ctx : DumpCtx) : Message :=
  if ctx.nextPeer.isNone then d.deviceAttrs else []

theorem messageSize_attrsAt_le (d : WgDevice) (ctx : DumpCtx) :
    messageSize (d.attrsAt ctx) ≤ messageSize d.deviceAttrs := by
  unfold attrsAt
  split
  · exact le_rfl
  · simp [messageSize]

theorem peerSize_header_le (d : WgDevice) (peer : WgPeer) (first : Bool) :
    peerSize (d.peerHeader peer first) ≤ peerSize (d.peerHeader peer true) := by
  cases first with
  | true => exact le_rfl
  | false => simp [peerHeader, peerSize, nestSize]

theorem Roomy.room (h : d.Roomy capacity) (ctx : DumpCtx) (hpeer : peer ∈ d.peerList)
    (first : Bool) : d.Room capacity (messageSize (d.attrsAt ctx) + nlaHdrlen) peer first := by
  have hattrs := d.messageSize_attrsAt_le ctx
  have hsize := d.peerSize_header_le peer first
  constructor
  · have hheader := h.header peer hpeer
    rw [messageSize_append_peers] at hheader
    simp only [List.map_cons, List.map_nil, List.sum_cons, List.sum_nil] at hheader
    omega
  · intro item hitem
    have hone := h.item peer hpeer item hitem
    rw [messageSize_append_peers] at hone
    simp only [List.map_cons, List.map_nil, List.sum_cons, List.sum_nil,
      peerSize_append_allowedips] at hone ⊢
    omega

/-- The context of a call: the peers before the cursor are written, and what is left of the others
is where the context points to. -/
structure Resumes (d : WgDevice) (ctx : DumpCtx) (before after : List WgPeer) : Prop where
  list : d.peerList = before ++ after
  cursor : ctx.nextPeer = before.getLast?.map WgPeer.id
  empty : after = [] → before = [] ∧ ctx.nextAllowedip = none
  next : ∀ peer ∈ after.head?, ∀ node ∈ ctx.nextAllowedip, node ∈ d.peerAllowedips.lists peer.id
  seq : d.SeqOk ctx

theorem Resumes.start (d : WgDevice) : d.Resumes .start [] d.peerList :=
  ⟨rfl, rfl, fun _ => ⟨rfl, rfl⟩, fun _ _ _ h => (by cases h), .inl rfl⟩

theorem Resumes.peersAfter {before after : List WgPeer} (hd : d.Valid)
    (h : d.Resumes ctx before after) : d.peersAfter ctx.nextPeer = after := by
  rw [h.cursor]
  rcases List.eq_nil_or_concat before with rfl | ⟨init, last, rfl⟩
  · simpa [WgDevice.peersAfter] using h.list
  · rw [List.concat_eq_append, List.getLast?_append]
    simp only [List.getLast?_singleton, Option.some_or, Option.map_some, WgDevice.peersAfter]
    have hlist := h.list
    rw [List.concat_eq_append, List.append_assoc, List.singleton_append] at hlist
    have hids := hd.ids
    rw [hlist, List.map_append, List.map_cons] at hids
    rw [hlist, List.dropWhile_append_of_pos]
    · simp
    · intro p hp
      have hne := (List.nodup_append.mp hids).2.2 p.id (List.mem_map_of_mem hp) last.id
        List.mem_cons_self
      simpa using hne

/-- The peers and allowed IPs that are left. -/
def left (d : WgDevice) (ctx : DumpCtx) : Cursor WgPeer Item :=
  ⟨ctx.nextAllowedip.isSome, groups d (d.peersAfter ctx.nextPeer) ctx.nextAllowedip⟩

/-- A message with fragments of peers, and with the attributes of the device or without. -/
def Carries (d : WgDevice) (msg : Message) (fs : List (Fragment WgPeer Item)) : Prop :=
  ∃ attrs, (attrs = d.deviceAttrs ∨ attrs = []) ∧
    (msg = attrs ++ [.peers (fs.map (encode d))] ∨ msg = attrs ∧ fs = [])

theorem wgGetDeviceDump_spec (hd : d.Valid) (hroomy : d.Roomy capacity)
    {before after : List WgPeer} (h : d.Resumes ctx before after) :
    ∃ msg ctx' done fs, d.wgGetDeviceDump capacity ctx = some (msg, ctx', done) ∧
      d.Carries msg fs ∧
      (done = true → Emits (d.left ctx) fs ⟨false, []⟩) ∧
      (done = false → (∃ before after, d.Resumes ctx' before after) ∧ fs ≠ [] ∧
        Emits (d.left ctx) fs (d.left ctx')) := by
  have hattrs : d.attrsAt ctx = d.deviceAttrs ∨ d.attrsAt ctx = [] := by
    unfold attrsAt
    split
    · exact .inl rfl
    · exact .inr rfl
  have hput : putAll capacity
      (msgHdrlen :: ((d.attrsAt ctx).map DeviceAttr.size ++ [nlaHdrlen])) 0 =
      some (messageSize (d.attrsAt ctx) + nlaHdrlen) := by
    have hdevice := hroomy.device
    have hle := d.messageSize_attrsAt_le ctx
    rw [messageSize_append_peers] at hdevice
    rw [putAll_eq_some_of_le]
    · simp [messageSize, Nat.add_assoc]
    · simp only [messageSize, List.sum_cons, List.sum_append, List.sum_nil, List.map_nil] at *
      omega
  have hafter := h.peersAfter hd
  unfold wgGetDeviceDump
  dsimp only
  rw [← attrsAt, hput]
  cases after with
  | nil =>
    obtain ⟨rfl, hnone⟩ := h.empty rfl
    have hnil : d.peerList = [] := h.list
    simp only [hnil, List.isEmpty_nil, Bool.true_or, if_true]
    refine ⟨_, _, true, [], rfl, ⟨_, hattrs, .inr ⟨rfl, rfl⟩⟩, fun _ => ?_,
      fun hfalse => by cases hfalse⟩
    rw [left, hafter, hnone]
    exact .nil _
  | cons peer rest =>
    have hmem : peer ∈ d.peerList := by simp [h.list]
    have hfound : (d.peerList.isEmpty || ctx.nextPeer.any
        (fun id => d.peerList.all fun p => p.id != id)) = false := by
      rw [Bool.or_eq_false_iff]
      refine ⟨List.isEmpty_eq_false_iff.mpr (List.ne_nil_of_mem hmem), ?_⟩
      rw [h.cursor]
      cases hlast : before.getLast? with
      | none => rfl
      | some last =>
        have hin : last ∈ d.peerList := by
          rw [h.list]
          exact List.mem_append_left _ (List.mem_of_getLast? hlast)
        simpa using ⟨last, hin, rfl⟩
    rw [hfound, hafter]
    obtain ⟨fs, hnests, hseq, hend, hne⟩ := dumpPeers_spec hd (peer :: rest) ctx.nextPeer h.seq
      (fun hnil => by cases hnil) h.next
      (fun _ hp _ => by cases hp; exact hroomy.room ctx hmem false)
    refine ⟨_, _, _, fs, rfl, ⟨_, hattrs, .inl (by rw [hnests])⟩, ?_, ?_⟩
    · intro hdone
      rw [left, hafter]
      rcases hend with ⟨-, hemits⟩ | ⟨hcut, -⟩
      · exact hemits
      · rw [hcut] at hdone
        cases hdone
    · intro hcut
      rcases hend with ⟨hdone, -⟩ | ⟨-, finished, q, rest', hpeers, hcursor, hin, hemits⟩
      · rw [hdone] at hcut
        cases hcut
      simp only [hcut, Bool.false_eq_true, if_false, hcursor]
      have hresumes : d.Resumes
          { (d.dumpPeers capacity (peer :: rest) (messageSize (d.attrsAt ctx) + nlaHdrlen) ctx
              ctx.nextPeer).ctx with
            nextPeer := (finished.getLast?.map WgPeer.id).or ctx.nextPeer }
          (before ++ finished) (q :: rest') := by
        refine ⟨?_, ?_, fun hnil => (by cases hnil), ?_, hseq⟩
        · rw [h.list, hpeers, List.append_assoc]
        · rw [List.getLast?_append, h.cursor]
          cases finished.getLast? <;> rfl
        · rintro _ ⟨⟩ node hnode
          exact hin node hnode
      refine ⟨⟨_, _, hresumes⟩, hne peer rfl (hroomy.room ctx hmem _), ?_⟩
      have hafter' := hresumes.peersAfter hd
      rw [left, left, hafter]
      rw [hafter']
      exact hemits

/-- A dump ends, and its messages carry every peer once, in order, with its allowed IPs once, in
order. The first message has the attributes of the device. -/
theorem dump_covers (hd : d.Valid) {capacities : Nat → Nat} (hroomy : ∀ i, d.Roomy (capacities i)) :
    ∃ fuel msgs fss, d.dump capacities fuel = some msgs ∧ List.Forall₂ d.Carries msgs fss ∧
      Covers (d.peerList.map fun p => (p, d.peerAllowedips.lists p.id)) fss.flatten ∧
      ∃ tail rest, msgs = (d.deviceAttrs ++ tail) :: rest := by
  have hcall (i : Nat) (ctx : DumpCtx) (h : ∃ before after, d.Resumes ctx before after) :=
    h.elim fun _ h => h.elim fun _ h => wgGetDeviceDump_spec hd (hroomy i) h
  obtain ⟨msgs, fss, hmsgs, hcarries, hemits⟩ := collect_emits hcall 0 ⟨_, _, Resumes.start d⟩
    (Nat.lt_succ_self (d.left .start).weight)
  refine ⟨_, msgs, fss, hmsgs, hcarries, ?_, ?_⟩
  · have hstart : d.left .start =
        ⟨false, d.peerList.map fun p => (p, d.peerAllowedips.lists p.id)⟩ := by
      rw [← groups_none]
      rfl
    rw [hstart] at hemits
    exact hemits.covers
  · obtain ⟨m, rest, ctx', done, rfl, hfirst⟩ := collect_eq_some hmsgs
    unfold wgGetDeviceDump at hfirst
    dsimp only at hfirst
    split at hfirst
    · cases hfirst
    · split at hfirst
      · cases hfirst
        exact ⟨[], rest, by simp [DumpCtx.start]⟩
      · cases hfirst
        exact ⟨[.peers _], rest, rfl⟩

end WgDevice

end Netlink

end WgTcp
