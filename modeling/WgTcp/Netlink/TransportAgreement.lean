import WgTcp.Netlink.Request

/-!
# The transport and the peers

`wg_set_device` commits a new transport before it replaces the peers, and later
parts of the same request may fail. In between nothing can fail on a device that
is down, so that the peers of the list always have the workqueues that their
transport needs.
-/

namespace WgTcp

namespace Netlink

open AllowedIps

/-! ## What a part of a message leaves as it is -/

namespace WgDevice

variable {d d' d'' : WgDevice}

structure Frame (d d' : WgDevice) : Prop where
  netifRunning : d'.netifRunning = d.netifRunning
  transport : d'.transport = d.transport
  ids : d'.peerList.map WgPeer.id = d.peerList.map WgPeer.id
  nextPeer : d'.nextPeer = d.nextPeer

theorem Frame.refl (d : WgDevice) : Frame d d := ⟨rfl, rfl, rfl, rfl⟩

theorem Frame.trans (h : Frame d d') (h' : Frame d' d'') : Frame d d'' where
  netifRunning := h'.netifRunning.trans h.netifRunning
  transport := h'.transport.trans h.transport
  ids := h'.ids.trans h.ids
  nextPeer := h'.nextPeer.trans h.nextPeer

theorem Frame.modifyPeer (d : WgDevice) (id : PeerId) {f : WgPeer → WgPeer}
    (hid : ∀ p, (f p).id = p.id) : Frame d (d.modifyPeer id f) where
  netifRunning := rfl
  transport := rfl
  ids := by
    simp only [WgDevice.modifyPeer, List.map_map]
    apply List.map_congr_left
    intro p _
    simp only [Function.comp_apply]
    split
    · exact hid p
    · rfl
  nextPeer := rfl

theorem Frame.setPeerHeader (d : WgDevice) (id : PeerId) (tb : PeerTb) :
    Frame d (d.setPeerHeader id tb) := by
  have hendpoint (d : WgDevice) (addr : SockAddr) :
      Frame d (d.setPeerEndpointConfigured id addr) :=
    .modifyPeer d id fun _ => rfl
  unfold WgDevice.setPeerHeader
  cases tb.presharedKey with
  | none =>
    cases tb.endpoint with
    | none => exact .refl d
    | some addr => exact hendpoint d addr
  | some key =>
    have hkey : Frame d (d.modifyPeer id fun p => { p with presharedKey := key }) :=
      .modifyPeer d id fun _ => rfl
    cases tb.endpoint with
    | none => exact hkey
    | some addr => exact hkey.trans (hendpoint _ addr)

theorem Frame.setPeerKeepalive (d : WgDevice) (id : PeerId) (tb : PeerTb) :
    Frame d (d.setPeerKeepalive id tb) := by
  unfold WgDevice.setPeerKeepalive
  split
  · exact .modifyPeer d id fun _ => rfl
  · exact .refl d

theorem Frame.clearEndpointSrcs (d : WgDevice) : Frame d d.clearEndpointSrcs where
  netifRunning := rfl
  transport := rfl
  ids := by simp [WgDevice.clearEndpointSrcs]
  nextPeer := rfl

theorem Frame.setFwmark (d : WgDevice) (mark : BitVec 32) : Frame d (d.setFwmark mark) := by
  have hmark : Frame d { d with fwmark := mark } := ⟨rfl, rfl, rfl, rfl⟩
  exact hmark.trans (.clearEndpointSrcs _)

end WgDevice

/-! ## The transport and the workqueues -/

namespace LiveDevice

/-- The peers of the list have the workqueues of the transport. -/
def Agrees (wg : LiveDevice) : Prop :=
  ∀ id ∈ wg.peerList.map WgPeer.id, wg.wq id = Request.newWorkqueues wg.transport

/-- While a request runs on a device that was in the state `running`, with the transport `t`: the
peers may be those of another transport only if the device is down and its peers are about to be
replaced. -/
structure Settles (replace : Bool) (t : Transport) (running : Bool) (wg : LiveDevice) : Prop where
  netifRunning : wg.netifRunning = running
  transport : running = true → wg.transport = t
  ids_lt : ∀ id ∈ wg.peerList.map WgPeer.id, id < wg.nextPeer
  agrees : wg.Agrees ∨ running = false ∧ replace = true

variable {replace : Bool} {t : Transport} {running : Bool} {wg wg' : LiveDevice}

/-- Peers may leave the list; those that stay keep their workqueues. -/
theorem Settles.of_subset (h : wg.Settles replace t running)
    (hrunning : wg'.netifRunning = wg.netifRunning) (htransport : wg'.transport = wg.transport)
    (hids : ∀ id ∈ wg'.peerList.map WgPeer.id, id ∈ wg.peerList.map WgPeer.id)
    (hnext : wg'.nextPeer = wg.nextPeer)
    (hwq : ∀ id ∈ wg'.peerList.map WgPeer.id, wg'.wq id = wg.wq id) :
    wg'.Settles replace t running where
  netifRunning := hrunning.trans h.netifRunning
  transport hr := htransport.trans (h.transport hr)
  ids_lt id hid := hnext ▸ h.ids_lt id (hids id hid)
  agrees := by
    rcases h.agrees with hagrees | hreplace
    · left
      intro id hid
      rw [hwq id hid, htransport]
      exact hagrees id (hids id hid)
    · exact .inr hreplace

theorem Settles.configure (h : wg.Settles replace t running) {d : WgDevice}
    (hframe : wg.toWgDevice.Frame d) :
    ({ wg with toWgDevice := d } : LiveDevice).Settles replace t running :=
  h.of_subset hframe.netifRunning hframe.transport (fun _ hid => hframe.ids ▸ hid) hframe.nextPeer
    fun _ _ => rfl

theorem Settles.agreement (h : wg.Settles false t running) : wg.Agrees :=
  h.agrees.resolve_right (by simp)

theorem Settles.of_false (h : wg.Settles false t running) (replace : Bool) :
    wg.Settles replace t running :=
  ⟨h.netifRunning, h.transport, h.ids_lt, .inl h.agreement⟩

/-- Of a running device nothing is left to be replaced. -/
theorem Settles.of_running (h : wg.Settles replace t running) (hr : wg.netifRunning = true) :
    wg.Settles false t running where
  netifRunning := h.netifRunning
  transport := h.transport
  ids_lt := h.ids_lt
  agrees := h.agrees.imp_right fun hdown => by
    rw [h.netifRunning, hdown.1] at hr
    cases hr

/-- The transport of a device that is down may change if it has no peers or if they are about to be
replaced. -/
theorem Settles.setTransport (h : wg.Settles false t running) (hdown : wg.netifRunning = false)
    (hpeers : wg.peerList = [] ∨ replace = true) (t' : Transport) :
    ({ wg with transport := t' } : LiveDevice).Settles replace t running where
  netifRunning := h.netifRunning
  transport hr := by
    rw [← h.netifRunning, hdown] at hr
    cases hr
  ids_lt := h.ids_lt
  agrees := by
    rcases hpeers with hnil | hreplace
    · left
      intro id hid
      rw [hnil] at hid
      cases hid
    · exact .inr ⟨h.netifRunning.symm.trans hdown, hreplace⟩

end LiveDevice

namespace Request

open LiveDevice Command

variable {α : Type} {replace : Bool} {t : Transport} {running : Bool}

/-- A part of a request that keeps the agreement, also when it fails. -/
def Keeps (c : Request α) : Prop :=
  ∀ replace t running,
    Holds (Settles replace t running) c (fun _ => Settles replace t running)
      (Settles replace t running)

theorem Keeps.bind {β : Type} {c : Request α} {f : α → Request β} (hc : Keeps c)
    (hf : ∀ a, Keeps (f a)) : Keeps (c >>= f) :=
  fun replace t running => (hc replace t running).bind fun a => hf a replace t running

theorem Keeps.pure (a : α) : Keeps (pure a) := fun _ _ _ => Holds.pure fun _ h => h

theorem Keeps.throw (e : Errno) : Keeps (throw e : Request α) :=
  fun _ _ _ => Holds.throw fun _ h => h

theorem Keeps.get : Keeps get := fun _ _ _ => Holds.get fun _ h => h

theorem holds_configure {f : WgDevice → WgDevice} (h : ∀ d, WgDevice.Frame d (f d))
    {fail : LiveDevice → Prop} :
    Holds (Settles replace t running) (configure f) (fun _ => Settles replace t running) fail :=
  Holds.modify fun wg hwg => hwg.configure (h wg.toWgDevice)

theorem Keeps.configure {f : WgDevice → WgDevice} (h : ∀ d, WgDevice.Frame d (f d)) :
    Keeps (configure f) :=
  fun _ _ _ => holds_configure h

theorem Keeps.setAllowedip (faults : Faults) (peer : PeerId) (attrs : List AllowedIpAttr) :
    Keeps (setAllowedip faults peer attrs) := by
  unfold Request.setAllowedip
  split
  · refine Keeps.get.bind fun wg => ?_
    refine Keeps.bind (.configure fun d => ⟨rfl, rfl, rfl, rfl⟩) fun _ => ?_
    split
    · exact .pure _
    · exact .throw _
    · exact .throw _
  · exact .throw _

theorem Keeps.wgPeerCreate (faults : Faults) (key : Key) (psk : Option Key) :
    Keeps (wgPeerCreate faults key psk) := by
  unfold Request.wgPeerCreate
  refine Keeps.get.bind fun wg => ?_
  dsimp only
  split
  · exact .throw _
  split
  · exact .throw _
  split
  · exact .throw _
  refine Keeps.bind (fun replace t running => Holds.modify fun wg h => ?_) fun _ => .pure _
  refine ⟨h.netifRunning, h.transport, ?_, ?_⟩
  · simp only [List.map_append, List.map_cons, List.map_nil, List.mem_append, List.mem_singleton]
    rintro id (hid | rfl)
    · exact (h.ids_lt id hid).trans (Nat.lt_succ_self _)
    · exact Nat.lt_succ_self _
  · refine h.agrees.imp_left fun hagrees => ?_
    intro id hid
    simp only [List.map_append, List.map_cons, List.map_nil, List.mem_append,
      List.mem_singleton] at hid
    rcases hid with hid | rfl
    · simp only [Function.update_of_ne (h.ids_lt id hid).ne]
      exact hagrees id hid
    · simp only [Function.update_self]

theorem Keeps.wgPeerRemove (id : PeerId) : Keeps (wgPeerRemove id) := by
  intro replace t running
  refine Holds.modify fun wg h => h.of_subset rfl rfl ?_ rfl ?_
  · intro id' hid
    exact (List.filter_sublist.map _).subset hid
  · intro id' hid
    obtain ⟨p, hp, rfl⟩ := List.mem_map.mp hid
    have hne : p.id ≠ id := by simpa using (List.mem_filter.mp hp).2
    exact Function.update_of_ne hne _ _

theorem Keeps.updatePeer (faults : Faults) (id : PeerId) (replaceAllowedips : Bool) (tb : PeerTb) :
    Keeps (updatePeer faults id replaceAllowedips tb) := by
  unfold Request.updatePeer
  refine Keeps.bind (.configure fun d => .setPeerHeader d id tb) fun _ => ?_
  refine Keeps.bind (.configure fun d => ?_) fun _ => ?_
  · split
    · exact ⟨rfl, rfl, rfl, rfl⟩
    · exact .refl d
  refine Keeps.bind (fun replace t running => Holds.forM fun attrs _ => ?_) fun _ => ?_
  · exact Keeps.setAllowedip faults id attrs replace t running
  · exact .configure fun d => .setPeerKeepalive d id tb

theorem Keeps.setPeer (faults : Faults) (attrs : List PeerAttr) : Keeps (setPeer faults attrs) := by
  unfold Request.setPeer
  split
  swap
  · exact .throw _
  dsimp only
  split
  · exact .throw _
  split
  · exact .throw _
  split
  · exact .throw _
  refine Keeps.get.bind fun wg => ?_
  split
  · split
    · exact .wgPeerRemove _
    · exact .updatePeer faults _ _ _
  · split
    · exact .pure _
    split
    · exact .pure _
    · exact (Keeps.wgPeerCreate faults _ _).bind fun id => .updatePeer faults id _ _

theorem Keeps.setPrivateKey (env : Env) (key : Key) : Keeps (setPrivateKey env key) := by
  unfold Request.setPrivateKey
  refine Keeps.get.bind fun wg => ?_
  split
  · exact .pure _
  dsimp only
  split
  · exact (Keeps.wgPeerRemove _).bind fun _ => .configure fun d => ⟨rfl, rfl, rfl, rfl⟩
  · exact .configure fun d => ⟨rfl, rfl, rfl, rfl⟩

/-- A change of the transport is refused on a running device, and as long as there are peers that
stay. -/
theorem holds_setTransport (flags : BitVec 32) (transport : BitVec 8) :
    Holds (Settles false t running) (setTransport flags transport)
      (fun _ => Settles (hasFlag flags wgdeviceFReplacePeers) t running)
      (Settles false t running) := by
  intro wg hwg
  have hfree (hbusy : ¬ (wg.netifRunning ||
      !wg.peerList.isEmpty && !hasFlag flags wgdeviceFReplacePeers) = true) :
      wg.netifRunning = false ∧
        (wg.peerList = [] ∨ hasFlag flags wgdeviceFReplacePeers = true) := by
    simpa [or_iff_not_imp_left] using hbusy
  simp only [setTransport, WgDevice.setTransport, exec_bind, exec_get]
  split_ifs with hrange htransport hbusy
  · exact hwg
  · exact hwg.of_false _
  · exact hwg
  · exact hwg.setTransport (hfree hbusy).1 (hfree hbusy).2 .udp
  · exact hwg.setTransport (hfree hbusy).1 (hfree hbusy).2 .tcp

/-- The port of a device that is down is only noted. -/
theorem holds_setPort (env : Env) (port : UInt16) :
    Holds (Settles replace t running) (setPort env port) (fun _ => Settles replace t running)
      (Settles false t running) := by
  intro wg hwg
  simp only [setPort, exec_bind, exec_get]
  have hclear := hwg.configure (.clearEndpointSrcs wg.toWgDevice)
  split_ifs with hsame hbusy hrunning
  · exact hwg
  · exact hwg.of_running hbusy.2
  · cases hbind : env.wgSocketInit wg.clearEndpointSrcs port with
    | error e => exact hclear.of_running hrunning
    | ok port => exact hclear.configure ⟨rfl, rfl, rfl, rfl⟩
  · exact hclear.configure ⟨rfl, rfl, rfl, rfl⟩

theorem holds_wgPeerRemoveAll :
    Holds (Settles true t running) wgPeerRemoveAll (fun _ => Settles false t running)
      (Settles false t running) := by
  refine Holds.modify fun wg h => ⟨h.netifRunning, h.transport, ?_, .inl ?_⟩
  · intro id hid
    cases hid
  · intro id hid
    cases hid

theorem holds_setAttrs (env : Env) (tb : DeviceTb) :
    Holds (Settles (hasFlag (tb.flags.getD 0) wgdeviceFReplacePeers) t running) (setAttrs env tb)
      (fun _ => Settles false t running) (Settles false t running) := by
  have hport (replace : Bool) :
      Holds (Settles replace t running) (tb.listenPort.elim (pure ()) (setPort env))
        (fun _ => Settles replace t running) (Settles false t running) := by
    cases tb.listenPort with
    | none => exact Holds.pure fun _ h => h
    | some port => exact holds_setPort env port
  have hkey : Keeps (tb.privateKey.elim (pure ()) (setPrivateKey env)) := by
    cases tb.privateKey with
    | none => exact .pure _
    | some key => exact .setPrivateKey env key
  unfold setAttrs
  refine Holds.bind (holds_configure fun d => ?_) fun _ => ?_
  · exact ⟨rfl, rfl, rfl, rfl⟩
  refine Holds.bind (holds_configure fun d => ?_) fun _ => (hport _).bind fun _ => ?_
  · cases tb.fwmark with
    | none => exact .refl _
    | some mark => exact .setFwmark _ mark
  split
  · next hreplace =>
    rw [hreplace]
    exact holds_wgPeerRemoveAll.bind fun _ => hkey false t running
  · next hreplace =>
    rw [Bool.not_eq_true] at hreplace
    rw [hreplace]
    exact hkey false t running

theorem holds_wgSetDevice (env : Env) (faults : Faults) (msg : Message) :
    Holds (Settles false t running) (wgSetDevice env faults msg)
      (fun _ => Settles false t running) (Settles false t running) := by
  have htransport (flags : BitVec 32) (transport : Option (BitVec 8)) :
      Holds (Settles false t running) (transport.elim (pure ()) (setTransport flags))
        (fun _ => Settles (hasFlag flags wgdeviceFReplacePeers) t running)
        (Settles false t running) := by
    cases transport with
    | none => exact Holds.pure fun _ h => h.of_false _
    | some transport => exact holds_setTransport flags transport
  unfold wgSetDevice
  refine (Keeps.get false t running).bind fun wg => ?_
  split
  · exact Holds.throw fun _ h => h
  dsimp only
  split
  · exact Holds.throw fun _ h => h
  split
  · exact Holds.throw fun _ h => h
  refine (htransport _ _).bind fun _ => (holds_setAttrs env _).bind fun _ => ?_
  exact Holds.forM fun attrs _ => Keeps.setPeer faults attrs false t running

end Request

/-! ## Whole runs -/

namespace LiveDevice

/-- Between two requests. -/
def Settled (wg : LiveDevice) : Prop := wg.Settles false wg.transport wg.netifRunning

theorem step_settled {wg wg' : LiveDevice} {a : Action} (h : wg.Settled)
    (hstep : wg.step a = some wg') :
    wg'.Settled ∧ (wg.netifRunning = true → wg'.transport = wg.transport) := by
  have hpeers (running : Bool) (port : UInt16) :
      ({ wg with netifRunning := running, incomingPort := port } : LiveDevice).Settled :=
    ⟨rfl, fun _ => rfl, h.ids_lt, .inl h.agreement⟩
  cases a with
  | setDevice env faults msg =>
    cases hstep
    have hafter : (Command.exec (Request.wgSetDevice env faults msg) wg).2.Settles false
        wg.transport wg.netifRunning := by
      have hholds := Request.holds_wgSetDevice env faults msg wg h
      rcases hexec : Command.exec (Request.wgSetDevice env faults msg) wg with ⟨_ | _, wg'⟩
      · rw [hexec] at hholds
        exact hholds
      · rw [hexec] at hholds
        exact hholds
    exact ⟨⟨rfl, fun _ => rfl, hafter.ids_lt, .inl hafter.agreement⟩, hafter.transport⟩
  | up port =>
    simp only [step] at hstep
    split at hstep
    · cases hstep
    · next hdown =>
      refine ⟨?_, fun hrunning => absurd hrunning hdown⟩
      split at hstep
      · next port =>
        cases hstep
        exact hpeers true port
      · cases hstep
        exact h
  | down =>
    simp only [step] at hstep
    split at hstep
    · cases hstep
      exact ⟨hpeers false wg.incomingPort, fun _ => rfl⟩
    · cases hstep

theorem reached_settled {name : IfName} {ifindex : BitVec 32} {as : List Action}
    {wg : LiveDevice} (hrun : Transition.run step (wgNewlink name ifindex) as = some wg) :
    wg.Settled := by
  refine Transition.run_invariant (fun _ _ _ h hstep => (step_settled h hstep).1) ?_ hrun
  refine ⟨rfl, fun _ => rfl, ?_, .inl ?_⟩
  · intro id hid
    cases hid
  · intro id hid
    cases hid

/-- In every state that requests and changes of the interface reach, failed requests included, the
peers of the device have both stream workqueues if and only if its transport is TCP; and the next
step leaves the transport of a running device as it is. -/
theorem transport_peer_agreement {name : IfName} {ifindex : BitVec 32} {as : List Action}
    {wg : LiveDevice} (hrun : Transition.run step (wgNewlink name ifindex) as = some wg) :
    (∀ peer ∈ wg.peerList,
      (wg.wq peer.id).tcpReadWq = true ∧ (wg.wq peer.id).tcpWriteWq = true ↔
        wg.transport = .tcp) ∧
      ∀ a wg', wg.netifRunning = true → wg.step a = some wg' → wg'.transport = wg.transport := by
  have h := reached_settled hrun
  constructor
  · intro peer hpeer
    rw [h.agreement peer.id (List.mem_map_of_mem hpeer)]
    cases wg.transport <;> simp [Request.newWorkqueues]
  · intro a wg' hrunning hstep
    exact (step_settled h hstep).2 hrunning

/-- A peer under UDP; a request that changes the transport and replaces the peer, and whose second
peer finds no memory; then the device is up, and a change back is refused. -/
def replacingRun : List Action :=
  let env : Env := ⟨true, fun _ key => (key, true), id, fun _ port => .ok port⟩
  let full : Faults := { Faults.none with peerMem := fun id => ⟨true, true, true, id != 2⟩ }
  [.setDevice env .none [.ifindex 7, .peers [[.publicKey 1]]],
    .setDevice env full
      [.ifindex 7, .flags 1, .transport 1, .peers [[.publicKey 2], [.publicKey 3]]],
    .up (.ok 51820),
    .setDevice env .none [.ifindex 7, .flags 1, .transport 0]]

theorem transport_peer_agreement_replaced :
    ∃ wg, Transition.run step (wgNewlink .wg0 7) replacingRun = some wg ∧
      wg.netifRunning = true ∧ wg.peerList.map WgPeer.id = [1] ∧ wg.transport = .tcp ∧
      ∀ peer ∈ wg.peerList,
        (wg.wq peer.id).tcpReadWq = true ∧ (wg.wq peer.id).tcpWriteWq = true := by
  obtain ⟨wg, hrun, hcheck⟩ := Transition.exists_run_of_any
    (by decide +kernel :
      (Transition.run step (wgNewlink .wg0 7) replacingRun).any
        (fun wg => wg.netifRunning && decide (wg.peerList.map WgPeer.id = [1]) &&
          decide (wg.transport = .tcp)) = true)
  simp only [Bool.and_eq_true, decide_eq_true_eq] at hcheck
  obtain ⟨⟨hrunning, hids⟩, htcp⟩ := hcheck
  refine ⟨wg, hrun, hrunning, hids, htcp, ?_⟩
  intro peer hpeer
  exact ((transport_peer_agreement hrun).1 peer hpeer).mpr htcp

end LiveDevice

end Netlink

end WgTcp
