import WgTcp.Foundation.LatestWrite
import WgTcp.Peer.Promotion

/-!
# Learned dial targets

What authenticated observations make of a configured endpoint. To the dial
target, an observation is a write of rank `connection_id` to a register that
keeps the latest one: `learnDialTarget` is `LatestWrite.write` on the remote
half of `peer_endpoint`. The port of every target is the configured one, which
is what `PortKept` says of every state that a peer reaches.
-/

namespace WgTcp

namespace Endpoint

/-- Where a connection goes, without the local half. -/
def remote : Endpoint → Endpoint
  | .unspec => .unspec
  | .inet port addr _ _ => .inet port addr 0 0
  | .inet6 port addr scopeId _ => .inet6 port addr scopeId 0

/-- The same address with another port. -/
def withPort (port : UInt16) : Endpoint → Endpoint
  | .unspec => .unspec
  | .inet _ addr src srcIf => .inet port addr src srcIf
  | .inet6 _ addr scopeId src => .inet6 port addr scopeId src

/-- The same family, address and scope. -/
def SameAddress (a b : Endpoint) : Prop := (a.remote.withPort 0) = b.remote.withPort 0

instance (a b : Endpoint) : Decidable (a.SameAddress b) := inferInstanceAs (Decidable (_ = _))

theorem dialTarget_eq {ep : Endpoint} (h : ep ≠ .unspec) (port : UInt16) :
    ep.dialTarget port = some (ep.remote.withPort port) := by
  cases ep with
  | unspec => exact absurd rfl h
  | inet | inet6 => rfl

theorem SameAddress.withPort {a b : Endpoint} (h : a.SameAddress b) (port : UInt16) :
    a.remote.withPort port = b.remote.withPort port := by
  have hport (ep : Endpoint) : ep.withPort port = (ep.withPort 0).withPort port := by
    cases ep <;> rfl
  rw [hport, show a.remote.withPort 0 = b.remote.withPort 0 from h, ← hport]

@[simp] theorem remote_remote (ep : Endpoint) : ep.remote.remote = ep.remote := by
  cases ep <;> rfl

@[simp] theorem remote_withPort (ep : Endpoint) (port : UInt16) :
    (ep.withPort port).remote = ep.remote.withPort port := by
  cases ep <;> rfl

@[simp] theorem remote_port (ep : Endpoint) : ep.remote.port = ep.port := by
  cases ep <;> rfl

theorem withPort_port {ep : Endpoint} (h : ep ≠ .unspec) (port : UInt16) :
    (ep.withPort port).port = port := by
  cases ep with
  | unspec => exact absurd rfl h
  | inet | inet6 => rfl

theorem remote_ne_unspec {ep : Endpoint} (h : ep ≠ .unspec) : ep.remote ≠ .unspec := by
  cases ep with
  | unspec => exact absurd rfl h
  | inet | inet6 =>
    intro h
    cases h

theorem remote_eq_of_dialTargetEq {a b : Endpoint} (h : a.wgTcpDialTargetEq b = true) :
    a.remote = b.remote := by
  cases a <;> cases b <;> simp_all [wgTcpDialTargetEq, remote]

theorem eq_of_endpointEq {a b : Endpoint} (h : a.endpointEq b = true) : a = b := by
  cases a <;> cases b <;> simp_all [endpointEq]

end Endpoint

/-! ## Observations -/

/-- What an authenticated packet says of its peer; its tuple was read off the packet. -/
structure Observation where
  connectionId : Nat
  endpoint : Endpoint
  known : endpoint ≠ .unspec

/-- The addressing half of `wg_socket_set_peer_endpoint_authenticated`. -/
def wgSocketSetPeerEndpointAuthenticated (transport : Transport) (a : Addressing)
    (o : Observation) : Addressing :=
  let a := wgSocketSetPeerEndpoint transport a o.endpoint
  if transport != .tcp then a else (learnDialTarget a o.endpoint o.connectionId).1

/-- The dial target as a register. An observation without a connection id is below every rank. -/
def Addressing.register (a : Addressing) : Nat × Endpoint :=
  (max a.tcpRoamingConnectionId 1, a.peerEndpoint.remote)

def Observation.asWrite (o : Observation) (port : UInt16) : Nat × Endpoint :=
  (o.connectionId, o.endpoint.remote.withPort port)

theorem learnDialTarget_fields {a : Addressing} (hset : a.peerEndpointSet = true)
    (o : Observation) :
    (learnDialTarget a o.endpoint o.connectionId).1.peerEndpointSet = true ∧
      (learnDialTarget a o.endpoint o.connectionId).1.tcpPeerListenPort = a.tcpPeerListenPort ∧
      (learnDialTarget a o.endpoint o.connectionId).1.register =
        LatestWrite.write a.register (o.asWrite a.tcpPeerListenPort) := by
  unfold learnDialTarget
  by_cases hstale : o.connectionId < max a.tcpRoamingConnectionId 1
  · have hguard : (!a.peerEndpointSet || o.connectionId == 0 ||
        decide (o.connectionId < a.tcpRoamingConnectionId)) = true := by
      rcases lt_max_iff.mp hstale with h | h
      · simp [h]
      · simp [Nat.lt_one_iff.mp h]
    rw [if_pos hguard]
    exact ⟨hset, rfl, (if_pos hstale).symm⟩
  · have hguard : ¬ (!a.peerEndpointSet || o.connectionId == 0 ||
        decide (o.connectionId < a.tcpRoamingConnectionId)) = true := by
      simp only [lt_max_iff, not_or] at hstale
      simp [hset, hstale.1]
      omega
    rw [if_neg hguard, Endpoint.dialTarget_eq o.known]
    have hrank : max o.connectionId 1 = o.connectionId := by omega
    have hwrite : LatestWrite.write a.register (o.asWrite a.tcpPeerListenPort) =
        o.asWrite a.tcpPeerListenPort := if_neg hstale
    rw [hwrite]
    dsimp only
    split
    · rename_i hsame
      refine ⟨hset, rfl, Prod.ext hrank ?_⟩
      have := Endpoint.remote_eq_of_dialTargetEq hsame
      simpa [Addressing.register, Observation.asWrite] using this
    · exact ⟨hset, rfl, Prod.ext hrank (by simp [Addressing.register, Observation.asWrite])⟩

theorem authenticated_fields {a : Addressing} (hset : a.peerEndpointSet = true) (o : Observation) :
    (wgSocketSetPeerEndpointAuthenticated .tcp a o).peerEndpointSet = true ∧
      (wgSocketSetPeerEndpointAuthenticated .tcp a o).tcpPeerListenPort = a.tcpPeerListenPort ∧
      (wgSocketSetPeerEndpointAuthenticated .tcp a o).register =
        LatestWrite.write a.register (o.asWrite a.tcpPeerListenPort) := by
  obtain ⟨htarget, hkeep, hport, hid⟩ := wgSocketSetPeerEndpoint_dial .tcp a o.endpoint
  have hregister : (wgSocketSetPeerEndpoint .tcp a o.endpoint).register = a.register := by
    simp only [Addressing.register, htarget, hid]
  have h := learnDialTarget_fields (hkeep.trans hset) o
  rw [hport, hregister] at h
  exact h

/-- A run of observations is a run of writes. -/
theorem foldl_authenticated (obs : List Observation) {a : Addressing}
    (hset : a.peerEndpointSet = true) :
    (obs.foldl (wgSocketSetPeerEndpointAuthenticated .tcp) a).register =
      (obs.map (·.asWrite a.tcpPeerListenPort)).foldl LatestWrite.write a.register := by
  induction obs generalizing a with
  | nil => rfl
  | cons o obs ih =>
    obtain ⟨hset', hport, hregister⟩ := authenticated_fields hset o
    rw [List.foldl_cons, ih hset', List.map_cons, List.foldl_cons, hport, hregister]

/-! ## The port of a dial target -/

/-- The listen port is the port of the dial target. -/
def Addressing.PortKept (a : Addressing) : Prop :=
  a.peerEndpointSet = true → a.peerEndpoint.port = a.tcpPeerListenPort

theorem Addressing.PortKept.setPeerEndpoint {a : Addressing} (h : a.PortKept)
    (transport : Transport) (up established : Bool) (ep : Endpoint) (configured : Bool) :
    (wgSocketSetPeerEndpointInternal transport up established a ep configured).1.PortKept := by
  unfold wgSocketSetPeerEndpointInternal
  split
  · exact h
  split
  · exact h
  · cases transport <;> cases configured <;> first | exact h | exact fun _ => rfl

theorem Addressing.PortKept.learn {a : Addressing} (h : a.PortKept) (ep : Endpoint)
    (connectionId : Nat) : (learnDialTarget a ep connectionId).1.PortKept := by
  unfold learnDialTarget
  split
  · exact h
  split
  · exact h
  · rename_i target htarget
    dsimp only
    split
    · exact h
    · intro _
      cases ep <;> cases htarget <;> rfl

/-- What a configured endpoint leaves: itself as the target, with its port as the listen port. -/
theorem configured_fields {a : Addressing} (h : a.PortKept) (up established : Bool) {ep : Endpoint}
    (hep : ep ≠ .unspec) :
    (wgSocketSetPeerEndpointInternal .tcp up established a ep true).1.peerEndpointSet = true ∧
      (wgSocketSetPeerEndpointInternal .tcp up established a ep true).1.peerEndpoint = ep ∧
      (wgSocketSetPeerEndpointInternal .tcp up established a ep true).1.tcpPeerListenPort =
        ep.port := by
  unfold wgSocketSetPeerEndpointInternal
  split
  · rename_i hsame
    -- The early return: the endpoint is already the configured one.
    obtain ⟨hset, htarget⟩ : a.peerEndpointSet = true ∧ ep.endpointEq a.peerEndpoint = true := by
      simpa using (Bool.and_eq_true_iff.mp hsame).2
    have htarget := Endpoint.eq_of_endpointEq htarget
    exact ⟨hset, htarget.symm, by rw [htarget]; exact (h hset).symm⟩
  · rw [if_neg (by simpa using hep)]
    exact ⟨rfl, rfl, rfl⟩

namespace State

variable {σ τ : State} {A : SkbAllocator} {queueLimit : Nat} {tempPeer : Bool} {as : List Action}

theorem PromotionMove.portKept {a : Action} (hm : σ.PromotionMove a τ)
    (h : σ.peer.addressing.PortKept) : τ.peer.addressing.PortKept := by
  cases hm with
  | unasked hu => rwa [hu.addressing]
  | setEndpoint ep configured => exact h.setPeerEndpoint _ _ _ _ _
  | learn ep connectionId => exact h.learn _ _
  | request connectionId =>
    rw [setPeer_peer, Peer.requestPromotion]
    split <;> exact h
  | generation | take | start | cancel => exact h

theorem Reaches.portKept (h : Reaches A queueLimit tempPeer .unset as σ) :
    σ.peer.addressing.PortKept :=
  (Transition.run_invariant (I := fun σ => σ.Control ∧ σ.peer.addressing.PortKept)
    (fun _ _ _ hi hs => ⟨step_control hi.1 hs, (step_promotionMove hi.1 hs).portKept hi.2⟩)
    ⟨control_init tempPeer .unset, (fun h => by cases h)⟩ h).2

/-- Start in any state of a TCP peer, configure an endpoint, then make observations that agree on
the address of a connection. The dial target is the configured endpoint if every observation is
older than the generation or on no accepted connection; otherwise it is the address that was seen on
the newest connection, with the configured port. The order of the observations does not matter. -/
theorem dial_target_confluent (h : Reaches A queueLimit tempPeer .unset as σ) (ep : Endpoint)
    (hep : ep ≠ .unspec) (obs : List Observation)
    (agree : ∀ o ∈ obs, ∀ o' ∈ obs, o.connectionId = o'.connectionId →
      o.endpoint.SameAddress o'.endpoint) :
    let a := (wgSocketSetPeerEndpointInternal .tcp σ.device.netifRunning
      σ.peer.conn.established σ.peer.addressing ep true).1
    let target (obs : List Observation) :=
      (obs.foldl (wgSocketSetPeerEndpointAuthenticated .tcp) a).peerEndpoint.remote
    ((∀ o ∈ obs, o.connectionId < max a.tcpRoamingConnectionId 1) → target obs = ep.remote) ∧
    (∀ o ∈ obs, max a.tcpRoamingConnectionId 1 ≤ o.connectionId →
      (∀ o' ∈ obs, o'.connectionId ≤ o.connectionId) →
      target obs = o.endpoint.remote.withPort ep.port) ∧
    (target obs).port = ep.port ∧
    ∀ obs' : List Observation, (∀ o, o ∈ obs' ↔ o ∈ obs) → target obs' = target obs := by
  intro a target
  obtain ⟨hset, htarget, hport⟩ : a.peerEndpointSet = true ∧ a.peerEndpoint = ep ∧
      a.tcpPeerListenPort = ep.port :=
    configured_fields h.portKept _ _ hep
  have hfold (obs : List Observation) : target obs =
      ((obs.map (·.asWrite ep.port)).foldl LatestWrite.write a.register).2 := by
    rw [← hport, ← foldl_authenticated obs hset]
    rfl
  have hagree : ∀ v ∈ obs.map (·.asWrite ep.port), ∀ u ∈ obs.map (·.asWrite ep.port),
      v.1 = u.1 → v.2 = u.2 := by
    simp only [List.mem_map]
    rintro _ ⟨o, ho, rfl⟩ _ ⟨o', ho', rfl⟩ hid
    exact (agree o ho o' ho' hid).withPort ep.port
  refine ⟨fun hold => ?_, fun o ho hnew hmax => ?_, ?_, fun obs' hmem => ?_⟩
  · rw [hfold, LatestWrite.foldl_write_of_lt (List.forall_mem_map.mpr hold)]
    exact congrArg Endpoint.remote htarget
  · have hmem : o.asWrite ep.port ∈ obs.map (·.asWrite ep.port) := List.mem_map_of_mem ho
    rw [hfold, LatestWrite.foldl_write_of_max hagree hmem hnew (List.forall_mem_map.mpr hmax)]
    rfl
  · rw [hfold]
    rcases LatestWrite.foldl_write a.register (obs.map (·.asWrite ep.port)) with
      ⟨heq, -⟩ | ⟨hmem, -⟩
    · rw [heq]
      exact (Endpoint.remote_port _).trans (congrArg Endpoint.port htarget)
    · obtain ⟨o, -, heq⟩ := List.mem_map.mp hmem
      rw [← heq]
      exact Endpoint.withPort_port (Endpoint.remote_ne_unspec o.known) _
  · rw [hfold, hfold, LatestWrite.foldl_write_congr hagree]
    simp [hmem]

/-- An old observation and two on one connection, after a roaming peer was configured. -/
theorem dial_target_confluent_roaming :
    let obs : List Observation :=
      [⟨7, .inet 4444 2 0 0, (fun h => by cases h)⟩, ⟨0, .inet 9 3 0 0, (fun h => by cases h)⟩,
        ⟨7, .inet 5555 2 0 0, (fun h => by cases h)⟩]
    let a := (wgSocketSetPeerEndpointInternal .tcp true false .unset (.inet 51820 1 0 0) true).1
    (obs.foldl (wgSocketSetPeerEndpointAuthenticated .tcp) a).peerEndpoint.remote =
      .inet 51820 2 0 0 := by
  intro obs a
  have hobs : ∀ o ∈ obs, o.connectionId = 7 ∨ o.connectionId = 0 := by simp [obs]
  have h : Reaches exactAllocator 4 false .unset [] (.init false .unset) := rfl
  exact (dial_target_confluent h (.inet 51820 1 0 0) (fun h => by cases h) obs
    (by simp [obs, Endpoint.SameAddress, Endpoint.remote, Endpoint.withPort])).2.1
      ⟨7, .inet 4444 2 0 0, (fun h => by cases h)⟩ (by simp [obs]) (by decide)
      fun o ho => (hobs o ho).elim (·.le) (by rintro h; simp [h])

end State

end WgTcp
