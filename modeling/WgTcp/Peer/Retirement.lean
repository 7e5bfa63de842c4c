import WgTcp.Peer.Coherence
import WgTcp.Peer.WirePrefix

/-!
# A socket that a send has failed on

Once a peer is done with a socket, it stays done with it: nothing is written to
the socket any more, since no writer pins a socket that is not the active one
of an open stream. Two things can go wrong. The removal of a direction that is
activated for nothing clears the claim it finds on its way out, even if that
claim is exact. And `wg_tcp_fail_exact_socket` knows how to retire a dialed
socket and a provisional one, but not a carrier that was promoted.
-/

namespace WgTcp

/-! ## Claims that are dropped -/

/-- The removal worker is about to clear a claim on a socket that is still the peer's. -/
def Holder.drops (p : Peer) : Holder → Bool
  | .outboundFinish _ _ false =>
      p.outboundRemove.scheduled && p.links.outboundSocket.isSome &&
        p.outboundRemove.socket == p.links.outboundSocket
  | .inboundFinish false =>
      p.inboundRemove.scheduled && p.links.inboundSocket.isSome &&
        p.inboundRemove.socket == p.links.inboundSocket
  | _ => false

namespace Peer

variable {d : Device} {p q : Peer} {s : SockId}

instance : Decidable (p.ClaimedOutbound s) :=
  decidable_of_iff (p.outboundRemove.scheduled = true ∧ p.outboundRemove.socket = some s ∧
    p.links.outboundSocket = some s) ⟨fun ⟨h₁, h₂, h₃⟩ => ⟨h₁, h₂, h₃⟩, fun ⟨h₁, h₂, h₃⟩ =>
      ⟨h₁, h₂, h₃⟩⟩

instance : Decidable (p.ClaimedInbound s) :=
  decidable_of_iff (p.inboundRemove.scheduled = true ∧ p.inboundRemove.socket = some s ∧
    p.links.inboundSocket = some s) ⟨fun ⟨h₁, h₂, h₃⟩ => ⟨h₁, h₂, h₃⟩, fun ⟨h₁, h₂, h₃⟩ =>
      ⟨h₁, h₂, h₃⟩⟩

instance : Decidable (p.Retired s) :=
  inferInstanceAs (Decidable (_ ∨ _))

theorem Retired.keep (h : p.Retired s) (hlinks : q.links = p.links)
    (hdead : p.isDead = true → q.isDead = true)
    (hstopping : p.tcpStopping = true → q.tcpStopping = true)
    (hout : p.ClaimedOutbound s → q.ClaimedOutbound s)
    (hin : p.ClaimedInbound s → q.ClaimedInbound s) : q.Retired s := by
  rcases h with h | h | h | h | h
  · exact .inl (hlinks ▸ h)
  · exact .inr (.inl (hdead h))
  · exact .inr (.inr (.inl (hstopping h)))
  · exact .inr (.inr (.inr (.inl (hout h))))
  · exact .inr (.inr (.inr (.inr (hin h))))

theorem Retired.of_eq (h : p.Retired s) (hlinks : q.links = p.links) (hdead : q.isDead = p.isDead)
    (hstopping : q.tcpStopping = p.tcpStopping)
    (hout : q.outboundRemove.scheduled = p.outboundRemove.scheduled ∧
      q.outboundRemove.socket = p.outboundRemove.socket)
    (hin : q.inboundRemove.scheduled = p.inboundRemove.scheduled ∧
      q.inboundRemove.socket = p.inboundRemove.socket) : q.Retired s := by
  refine h.keep hlinks (fun h => hdead.trans h) (fun h => hstopping.trans h) ?_ ?_
  · rintro ⟨h₁, h₂, h₃⟩
    exact ⟨hout.1.trans h₁, hout.2.trans h₂, hlinks ▸ h₃⟩
  · rintro ⟨h₁, h₂, h₃⟩
    exact ⟨hin.1.trans h₁, hin.2.trans h₂, hlinks ▸ h₃⟩

/-- A claim that stands is not replaced. -/
theorem Keeps.retired (hk : p.Keeps d q) (h : p.Retired s) : q.Retired s := by
  refine h.keep hk.links hk.isDead (fun h => hk.tcpStopping.trans h) ?_ ?_
  · rintro ⟨h₁, h₂, h₃⟩
    rcases hk.outbound with ⟨hs, hsocket⟩ | ⟨hs, -, -⟩
    · exact ⟨hs.trans h₁, hsocket.trans h₂, hk.links ▸ h₃⟩
    · simp [h₁] at hs
  · rintro ⟨h₁, h₂, h₃⟩
    rcases hk.inbound with ⟨hs, hsocket⟩ | ⟨hs, -, -⟩
    · exact ⟨hs.trans h₁, hsocket.trans h₂, hk.links ▸ h₃⟩
    · simp [h₁] at hs

/-- The stream of a retired socket is closed. -/
theorem Retired.streamOpen (h : p.Retired s) (d : Device) :
    p.links.peerSocket ≠ some s ∨ p.streamOpen d = false := by
  rcases h with h | h | h | h | h
  · exact .inl h
  · exact .inr (Closed.streamOpen (.inl h) d)
  · exact .inr (Closed.streamOpen (.inr (.inl h)) d)
  · exact .inr (Closed.streamOpen (.inr (.inr (.inl h.scheduled))) d)
  · exact .inr (Closed.streamOpen (.inr (.inr (.inr h.scheduled))) d)

/-- No worker pins a retired socket. -/
theorem Retired.captureSocket (h : p.Retired s) (d : Device) : p.captureSocket d ≠ some s := by
  intro hs
  obtain ⟨hopen, -, hactive⟩ := captureSocket_eq_some.mp hs
  rcases h.streamOpen d with h | h
  · exact h hactive
  · simp [hopen] at h

theorem wgTcpFailExactSocket_claims (hactive : p.links.peerSocket = some s)
    (htemp : p.tempPeer = false) (hlive : p.live d = true) (htcp : d.transport = .tcp)
    (hsocket : p.links.outboundSocket = some s) (hfree : p.outboundRemove.scheduled = false)
    (hconnecting : p.conn.connecting = false) :
    (p.wgTcpFailExactSocket d s).ClaimedOutbound s := by
  unfold wgTcpFailExactSocket
  rw [if_neg (by simp [hactive]), if_neg (by simp [htemp]), if_neg (by simp [hlive, htcp, hsocket]),
    if_neg (by simp [hfree]), if_pos (by simp [hfree, hconnecting])]
  exact ⟨rfl, rfl, hsocket⟩

end Peer

/-- What only the stream workers change of a socket. -/
structure Sock.Undisturbed (sk sk' : Sock) : Prop where
  stage : sk.stage = .owned → sk'.stage = .owned
  wire : sk'.wire = sk.wire
  sendFailed : sk'.sendFailed = sk.sendFailed
  received : sk'.received = sk.received
  recvEnded : sk'.recvEnded = sk.recvEnded

theorem Sock.Undisturbed.refl (sk : Sock) : sk.Undisturbed sk := ⟨id, rfl, rfl, rfl, rfl⟩

theorem Sock.Undisturbed.update {socks : SockId → Sock} {s : SockId} {sk : Sock}
    (h : (socks s).Undisturbed sk) (t : SockId) :
    (socks t).Undisturbed (Function.update socks s sk t) := by
  by_cases ht : t = s
  · subst ht
    simpa using h
  · simpa [ht] using Sock.Undisturbed.refl (socks t)

namespace State

variable {σ τ : State} {h k : Holder} {s : SockId}

def dropsClaim (σ : State) : Action → Bool
  | .locked _ => σ.lock.any (Holder.drops σ.peer)
  | _ => false

/-- No exact claim is dropped by the removal worker of its direction. -/
def ClaimKept (σ : State) (a : Action) : Prop := σ.dropsClaim a = false

instance (σ : State) (a : Action) : Decidable (σ.ClaimKept a) :=
  inferInstanceAs (Decidable (_ = _))

/-! ## Retired sockets stay retired -/

theorem LockedMove.retired (hm : σ.LockedMove h τ) (hl : σ.lock = some h) (hc : σ.Control)
    (hkept : h.drops σ.peer = false) (howned : (σ.socks s).stage = .owned)
    (hr : σ.peer.Retired s) : τ.peer.Retired s := by
  obtain ⟨hok, hin⟩ := hc.holder h hl
  have same {q : Peer} (hq : q = σ.peer) : q.Retired s := hq ▸ hr
  cases hm with
  | connectPublish caller t =>
    refine .inl fun hs => ?_
    obtain rfl : t = s := Option.some.inj hs
    exact absurd (hok.2.symm.trans howned) (fun h => by cases h)
  | promotePublish t =>
    refine .inl fun hs => ?_
    obtain rfl : t = s := Option.some.inj hs
    exact absurd (hok.2.symm.trans howned) (fun h => by cases h)
  | connectFinish caller t first p finish =>
    obtain ⟨-, -, conn, -, rfl⟩ := Peer.connectFinish_some hok.1 finish
    refine hr.keep rfl id id ?_ fun h => ⟨h.1, h.2, h.3⟩
    rintro ⟨h₁, h₂, h₃⟩
    exact ⟨by simp [h₁], by simp [h₁, h₂], h₃⟩
  | unwindClaim caller t links =>
    refine hr.keep rfl id id (fun hclaim => ⟨rfl, ?_, hclaim.owned⟩)
      fun h => ⟨h.1, h.2, h.3⟩
    exact (show some t = σ.peer.links.outboundSocket by rw [links]; rfl).trans hclaim.owned
  | unwindFinish =>
    have hlinks : (σ.peer.unwindFinish σ.device).2.links = .none := hok
    exact .inl (by simp [hlinks, Links.none])
  | unwindQueue =>
    rw [Peer.unwindQueue_eq]
    exact hr.of_eq rfl rfl rfl ⟨rfl, rfl⟩ ⟨rfl, rfl⟩
  | connectReturn => exact same (by simp)
  | outboundFinish retryNeeded reclaim =>
    refine hr.keep rfl id id (fun hclaim => ?_) fun h => ⟨h.1, h.2, h.3⟩
    simp [Holder.drops, hclaim.scheduled, hclaim.socket, hclaim.owned] at hkept
  | inboundFinish =>
    refine hr.keep rfl id id (fun h => ⟨h.1, h.2, h.3⟩) fun hclaim => ?_
    simp [Holder.drops, hclaim.scheduled, hclaim.socket, hclaim.owned] at hkept
  | rearm => exact (Peer.rearm_outside _ _ _).toKeeps.retired hr
  | promoteFree | promoteClaim =>
    refine hr.keep rfl id id (fun hclaim => ⟨?_, hclaim.owned, hclaim.owned⟩)
      fun hclaim => ⟨?_, hclaim.owned, hclaim.owned⟩
    · exact Option.isSome_of_eq_some hclaim.owned
    · exact Option.isSome_of_eq_some hclaim.owned
  | stopReclaim =>
    exact hr.keep rfl id id (fun hclaim => ⟨rfl, hclaim.owned, hclaim.owned⟩)
      fun hclaim => ⟨rfl, hclaim.owned, hclaim.owned⟩
  | installData => exact (Peer.wgTcpDataReady_outside _ _).toKeeps.retired hr
  | installFinish =>
    dsimp only [setPeer_peer, Peer.finishInit]
    split
    · exact .inr (.inl rfl)
    · exact hr
  | handoverClaim => exact .inr (.inl rfl)
  | handoverDetach => exact .inl (fun h => by cases h)
  | clearFlags plan => cases plan <;> exact hr.of_eq rfl rfl rfl ⟨rfl, rfl⟩ ⟨rfl, rfl⟩
  | release => exact .inl (fun h => by cases h)
  | _ => exact hr.of_eq rfl rfl rfl ⟨rfl, rfl⟩ ⟨rfl, rfl⟩

theorem ThreadMove.retired (hm : σ.ThreadMove τ) (hr : σ.peer.Retired s) : τ.peer.Retired s := by
  cases hm with
  | aside aside => exact aside.peer.toKeeps.retired hr
  | dead => exact .inr (.inl rfl)
  | acquire k entry free lock device peer => rwa [peer]
  | promotionClaim => exact hr
  | stopBegin =>
    dsimp only [setPeer_peer]
    split <;> exact .inr (.inr (.inl rfl))
  | stopFinish stopping => exact .inr (.inr (.inl stopping))

theorem LifecycleMove.retired (hm : σ.LifecycleMove τ) (howned : (σ.socks s).stage = .owned)
    (hr : σ.peer.Retired s) : τ.peer.Retired s := by
  cases hm with
  | deviceDown | handover => exact hr
  | deviceUp done temp links =>
    refine .inl ?_
    unfold Peer.wgOpen
    split <;> simp [links, Links.none]
  | removePeer => exact .inr (.inl rfl)
  | install t connectionId stage =>
    refine .inl fun hs => ?_
    obtain rfl : t = s := Option.some.inj hs
    exact absurd (stage.symm.trans howned) (fun h => by cases h)

theorem step_retired {A : SkbAllocator} {queueLimit : Nat} {a : Action} (hc : σ.Control)
    (hkept : σ.ClaimKept a) (h : σ.step A queueLimit a = some τ)
    (howned : (σ.socks s).stage = .owned) (hr : σ.peer.Retired s) : τ.peer.Retired s := by
  cases a with
  | kernel e =>
    obtain ⟨sk, -, rfl⟩ := Option.map_eq_some_iff.mp h
    exact hr
  | callback t => exact (callbackStep_cases h).outside.toKeeps.retired hr
  | read choice => exact (readStep_arming h).keeps.retired hr
  | write choice => exact (writeStep_arming h).keeps.retired hr
  | request r => exact (requestStep_arming h).keeps.retired hr
  | thread t choice => exact (threadStep_cases hc h).retired hr
  | locked choice =>
    obtain ⟨k, hk, h⟩ := Option.bind_eq_some_iff.mp h
    refine (lockedStep_cases hc hk h).retired hk hc ?_ howned hr
    simpa [ClaimKept, dropsClaim, hk] using hkept
  | lifecycle l => exact (lifecycleStep_cases hc h).retired howned hr

/-! ## What every peer keeps -/

/-- What is known of a configured peer, and of a provisional one. -/
structure Sound (σ : State) : Prop where
  control : σ.Control
  coherent : σ.peer.tempPeer = false → σ.Coherent
  bare : σ.peer.tempPeer = true → σ.Bare
  /-- A provisional peer has no socket but the one it was made for. -/
  inbound : σ.peer.tempPeer = true → σ.peer.links.outboundSocket = none

theorem sound_init (tempPeer : Bool) (addressing : Addressing) :
    (State.init tempPeer addressing).Sound where
  control := control_init tempPeer addressing
  coherent := fun h => by
    obtain rfl : tempPeer = false := h
    exact coherent_init addressing
  bare := fun _ => bare_init tempPeer addressing
  inbound := fun _ => rfl

theorem LockedMove.inbound (hm : σ.LockedMove h τ) (hl : σ.lock = some h) (hc : σ.Control)
    (hb : σ.Bare) (hin : σ.peer.links.outboundSocket = none) :
    τ.peer.links.outboundSocket = none := by
  obtain ⟨hok, hinside⟩ := hc.holder h hl
  cases hm with
  | connectPublish caller =>
    have := hb.callers caller
    rw [show σ.caller caller = some .inside from hinside] at this
    cases this
  | connectFinish caller t first p finish =>
    obtain ⟨-, -, conn, -, rfl⟩ := Peer.connectFinish_some hok.1 finish
    exact hin
  | unwindQueue =>
    rw [Peer.unwindQueue_eq]
    exact hin
  | connectReturn => simpa using hin
  | rearm =>
    rw [Peer.rearm_eq]
    exact hin
  | installData =>
    rw [hold_peer, setPeer_peer, (Peer.wgTcpDataReady_outside _ _).links]
    exact hin
  | installFinish =>
    dsimp only [setPeer_peer, Peer.finishInit]
    split <;> exact hin
  | clearFlags plan => cases plan <;> exact hin
  | release => rfl
  | _ => exact hin

theorem Sound.step {A : SkbAllocator} {queueLimit : Nat} {a : Action} (hi : σ.Sound)
    (h : σ.step A queueLimit a = some τ) : τ.Sound := by
  have htemp := step_tempPeer hi.control h
  refine ⟨step_control hi.control h, ?_, ?_, ?_⟩
  · rw [htemp]
    exact fun ht => (hi.coherent ht).step h
  · rw [htemp]
    exact fun ht => step_bare hi.control ht (hi.bare ht) h
  · rw [htemp]
    intro ht
    have hin := hi.inbound ht
    cases a with
    | kernel e =>
      obtain ⟨sk, -, rfl⟩ := Option.map_eq_some_iff.mp h
      exact hin
    | callback t => rwa [(callbackStep_cases h).outside.links]
    | read choice => rwa [(readStep_arming h).keeps.links]
    | write choice => rwa [(writeStep_arming h).keeps.links]
    | request r => rwa [(requestStep_arming h).keeps.links]
    | thread t choice =>
      cases threadStep_cases hi.control h with
      | aside aside => rwa [aside.peer.links]
      | acquire k entry free lock device peer => rwa [peer]
      | stopBegin =>
        dsimp only [setPeer_peer]
        split <;> exact hin
      | _ => exact hin
    | locked choice =>
      obtain ⟨k, hk, h⟩ := Option.bind_eq_some_iff.mp h
      exact (lockedStep_cases hi.control hk h).inbound hk hi.control (hi.bare ht) hin
    | lifecycle l =>
      cases lifecycleStep_cases hi.control h with
      | deviceUp done temp => exact absurd (ht.symm.trans temp) (by simp)
      | _ => exact hin

theorem Sound.outboundOf (hi : σ.Sound) (hs : σ.peer.links = .on s false) :
    σ.peer.tempPeer = false := by
  by_contra ht
  have := hi.inbound (by simpa using ht)
  rw [hs] at this
  cases this

/-! ## Steps beside the stream workers -/

structure Beside (σ τ : State) : Prop where
  socks : ∀ s, (σ.socks s).Undisturbed (τ.socks s)
  reader : τ.reader = σ.reader
  writer : τ.writer = σ.writer

theorem Beside.of_socks (hsocks : τ.socks = σ.socks) (hreader : τ.reader = σ.reader)
    (hwriter : τ.writer = σ.writer) : σ.Beside τ :=
  ⟨fun s => by rw [hsocks]; exact .refl _, hreader, hwriter⟩

theorem Beside.update {sk : Sock} (hsocks : τ.socks = Function.update σ.socks s sk)
    (hreader : τ.reader = σ.reader) (hwriter : τ.writer = σ.writer)
    (h : (σ.socks s).Undisturbed sk) : σ.Beside τ :=
  ⟨fun t => by rw [hsocks]; exact h.update t, hreader, hwriter⟩

theorem kernel_undisturbed {sk sk' : Sock} {e : KernelEvent} (h : sk.kernel e = some sk') :
    sk.Undisturbed sk' := by
  cases e with
  | accept t connectionId =>
    obtain ⟨hunused, ⟨⟩⟩ := Option.ite_none_right_eq_some.mp h
    exact ⟨fun howned => absurd (hunused.symm.trans howned) (fun h => by cases h), rfl, rfl, rfl,
      rfl⟩
  | arrive | room | transition =>
    obtain ⟨-, ⟨⟩⟩ := Option.ite_none_right_eq_some.mp h
    exact ⟨id, rfl, rfl, rfl, rfl⟩
  | foreignRead t n =>
    simp only [Sock.kernel] at h
    split at h
    · cases h
      exact ⟨id, rfl, rfl, rfl, rfl⟩
    · cases h

theorem LockedMove.beside (hm : σ.LockedMove h τ) : σ.Beside τ := by
  cases hm with
  | create caller t unused =>
    refine .update rfl rfl rfl ⟨fun howned => ?_, rfl, rfl, rfl, rfl⟩
    exact absurd (unused.symm.trans howned) (fun h => by cases h)
  | connectPublish | promotePublish => exact .update rfl rfl rfl ⟨fun _ => rfl, rfl, rfl, rfl, rfl⟩
  | setup | start | handoverReset | reset | shutdown =>
    exact .update rfl rfl rfl ⟨id, rfl, rfl, rfl, rfl⟩
  | connectReturn => exact .of_socks (by simp) (by simp) (by simp)
  | _ => exact .of_socks rfl rfl rfl

/-- Every step but those of the two stream workers. -/
theorem step_beside {A : SkbAllocator} {queueLimit : Nat} {a : Action} (hc : σ.Control)
    (h : σ.step A queueLimit a = some τ) :
    (∃ choice, a = .read choice) ∨ (∃ choice, a = .write choice) ∨ σ.Beside τ := by
  cases a with
  | kernel e =>
    obtain ⟨sk, hsk, rfl⟩ := Option.map_eq_some_iff.mp h
    exact .inr (.inr (.update rfl rfl rfl (kernel_undisturbed hsk)))
  | callback t =>
    refine .inr (.inr ?_)
    cases callbackStep_cases h <;> exact .update rfl rfl rfl ⟨id, rfl, rfl, rfl, rfl⟩
  | read choice => exact .inl ⟨choice, rfl⟩
  | write choice => exact .inr (.inl ⟨choice, rfl⟩)
  | request r =>
    refine .inr (.inr ?_)
    cases requestStep_cases h with
    | accept => exact .update rfl rfl rfl ⟨id, rfl, rfl, rfl, rfl⟩
    | aside aside => exact .of_socks aside.socks aside.reader aside.writer
  | thread t choice =>
    refine .inr (.inr ?_)
    cases threadStep_cases hc h with
    | aside aside => exact .of_socks aside.socks aside.reader aside.writer
    | acquire k entry free lock device peer socks reader writer =>
      exact .of_socks socks reader writer
    | promotionClaim t connectionId stage =>
      refine .update rfl rfl rfl ⟨fun howned => ?_, rfl, rfl, rfl, rfl⟩
      exact absurd (stage.symm.trans howned) (fun h => by cases h)
    | _ => exact .of_socks rfl rfl rfl
  | locked choice =>
    obtain ⟨k, hk, h⟩ := Option.bind_eq_some_iff.mp h
    exact .inr (.inr (lockedStep_cases hc hk h).beside)
  | lifecycle l =>
    refine .inr (.inr ?_)
    cases lifecycleStep_cases hc h with
    | install => exact .update rfl rfl rfl ⟨fun _ => rfl, rfl, rfl, rfl, rfl⟩
    | _ => exact .of_socks rfl rfl rfl

/-! ## Terminal sends -/

/-- The writer's failed send is on a socket that `wg_tcp_fail_exact_socket` can retire. -/
def failHandled (σ : State) : Action → Bool
  | .write _ =>
      match σ.writer with
      | .fail s =>
          σ.peer.tempPeer || decide (σ.peer.Retired s) ||
            (σ.device.tcpCleanupScheduled && !σ.peer.conn.connecting &&
              σ.peer.links.outboundSocket == some s)
      | _ => true
  | _ => true

def FailHandled (σ : State) (a : Action) : Prop := σ.failHandled a = true ∧ σ.ClaimKept a

instance (σ : State) (a : Action) : Decidable (σ.FailHandled a) :=
  inferInstanceAs (Decidable (_ ∧ _))

structure SendOk (σ : State) : Prop where
  pinned : ∀ s, σ.writer.loops s = true → (σ.socks s).stage = .owned
  failed : ∀ s, (σ.socks s).sendFailed = true → (σ.socks s).stage = .owned ∧
    (σ.writer = .fail s ∨ (σ.peer.Retired s ∧ σ.writer.loops s = false))

theorem sendOk_init (tempPeer : Bool) (addressing : Addressing) :
    (State.init tempPeer addressing).SendOk :=
  ⟨(fun _ h => by cases h), (fun _ h => by cases h)⟩

/-- A claim of the outbound removal is on the outbound socket, unless a connect settles it. -/
theorem Coherent.exact_outbound (hi : σ.Coherent) (hlinks : σ.peer.links = .on s false)
    (hs : σ.peer.outboundRemove.scheduled = true) :
    σ.peer.ClaimedOutbound s ∨ σ.lock.any Holder.settlesClaim = true := by
  have hsocket : σ.peer.links.outboundSocket = some s := by rw [hlinks]; rfl
  rcases hi.configured.exact.outbound hs with hexact | hsettles | ⟨hnone, -⟩
  · exact .inl ⟨hs, hexact.trans hsocket, hsocket⟩
  · exact .inr hsettles
  · exact absurd (hsocket.symm.trans hnone) (fun h => by cases h)

theorem Coherent.not_settles (hi : σ.Coherent) (hconnecting : σ.peer.conn.connecting = false) :
    σ.lock.any Holder.settlesClaim ≠ true := by
  intro hsettles
  obtain ⟨k, hk, hsettles⟩ := (Option.any_eq_true _ _).mp hsettles
  have := hi.conn.connecting
  rw [hconnecting, hk] at this
  cases k <;> first | cases hsettles; done | cases this

/-- A provisional peer does not survive the failure of its socket. -/
theorem wgTcpFailExactSocket_provisional (hi : σ.Sound) (htemp : σ.peer.tempPeer = true) :
    (σ.peer.wgTcpFailExactSocket σ.device s).Retired s := by
  unfold Peer.wgTcpFailExactSocket
  split
  · rename_i hactive
    exact .inl (by simpa using hactive)
  · rename_i hactive
    rcases hi.control.custody.links with hnone | ⟨t, inbound, hlinks, -⟩
    · simp [hnone, Links.none] at hactive
    · have hout := hi.inbound htemp
      cases inbound with
      | false =>
        rw [hlinks] at hout
        cases hout
      | true =>
        obtain rfl : t = s := by simpa [hlinks, Links.on] using hactive
        simp [htemp, hlinks, Links.on, Peer.Retired]

/-- A dialed socket is claimed. -/
theorem wgTcpFailExactSocket_dialed (hi : σ.Coherent) (hup : σ.device.tcpCleanupScheduled = true)
    (hconnecting : σ.peer.conn.connecting = false)
    (hsocket : σ.peer.links.outboundSocket = some s) :
    (σ.peer.wgTcpFailExactSocket σ.device s).Retired s := by
  have hcontrol := hi.configured.control
  have hlinks := hcontrol.custody.on_socketOf (show σ.peer.socketOf false = some s from hsocket)
  have hactive : σ.peer.links.peerSocket = some s := by rw [hlinks]; rfl
  by_cases hgone : σ.peer.Retired s
  · exact (Peer.wgTcpFailExactSocket_outside _ _ _).toKeeps.retired hgone
  · have hlive : σ.peer.live σ.device = true := by
      simp only [Peer.Retired, not_or, Bool.not_eq_true] at hgone
      simp [Peer.live, hgone.2.1, hgone.2.2.1, hup]
    have hfree : σ.peer.outboundRemove.scheduled = false := by
      by_contra hs
      rcases hi.exact_outbound hlinks (by simpa using hs) with hclaim | hsettles
      · exact hgone (.inr (.inr (.inr (.inl hclaim))))
      · exact hi.not_settles hconnecting hsettles
    exact .inr (.inr (.inr (.inl (Peer.wgTcpFailExactSocket_claims hactive hi.configured.tempPeer
      hlive
      hi.noted.transport hsocket hfree hconnecting))))

theorem writeFail_retired (hi : σ.Sound) {choice : SendChoice} (hpc : σ.writer = .fail s)
    (hhandled : σ.failHandled (.write choice) = true) : (σ.writeFail s).peer.Retired s := by
  simp only [failHandled, hpc, Bool.or_eq_true, decide_eq_true_eq, Bool.and_eq_true,
    Bool.not_eq_true', beq_iff_eq] at hhandled
  rcases hhandled with (htemp | hr) | ⟨⟨hup, hconnecting⟩, hsocket⟩
  · exact wgTcpFailExactSocket_provisional hi htemp
  · exact (Peer.wgTcpFailExactSocket_outside _ _ _).toKeeps.retired hr
  · have htemp : σ.peer.tempPeer = false := by
      by_contra ht
      have := hi.inbound (by simpa using ht)
      simp [hsocket] at this
    exact wgTcpFailExactSocket_dialed (hi.coherent htemp) hup hconnecting hsocket

theorem SendResult.next_loops {frame : Bytes} {result : SendResult} {pc : WritePc} {s : SockId}
    (h : result.next s frame = some pc) :
    (result = .failed ∧ pc = .fail s) ∨
      (result ≠ .failed ∧ ∀ t, pc.loops t = (WritePc.send s frame).loops t) := by
  cases result with
  | sent n =>
    obtain ⟨-, ⟨⟩⟩ := Option.ite_none_right_eq_some.mp h
    refine .inr ⟨(fun h => by cases h), fun t => ?_⟩
    split <;> rfl
  | eagain =>
    cases h
    exact .inr ⟨(fun h => by cases h), fun t => rfl⟩
  | failed =>
    cases h
    exact .inl ⟨rfl, rfl⟩

theorem writeStep_sendOk {choice : SendChoice} (hi : σ.Sound) (hw : σ.SendOk)
    (hhandled : σ.failHandled (.write choice) = true) (h : σ.writeStep choice = some τ) :
    τ.SendOk := by
  have hkeep := (writeStep_arming h).keeps
  -- What was failed before is retired, and stays so where the worker does not turn to it.
  have old (hnotFail : ∀ t, σ.writer ≠ .fail t) {t : SockId}
      (hf : (σ.socks t).sendFailed = true) (hloops : τ.writer.loops t = false)
      (hstage : (σ.socks t).stage = .owned → (τ.socks t).stage = .owned) :
      (τ.socks t).stage = .owned ∧
        (τ.writer = .fail t ∨ (τ.peer.Retired t ∧ τ.writer.loops t = false)) := by
    obtain ⟨howned, hfailed⟩ := hw.failed t hf
    obtain ⟨hr, -⟩ := hfailed.resolve_left (hnotFail t)
    exact ⟨hstage howned, .inr ⟨hkeep.retired hr, hloops⟩⟩
  have quiet (hnotFail : ∀ t, σ.writer ≠ .fail t) {t : SockId}
      (hf : (σ.socks t).sendFailed = true) : σ.writer.loops t = false :=
    ((hw.failed t hf).2.resolve_left (hnotFail t)).2
  cases writeStep_cases h with
  | start idle =>
    have hnotFail (t : SockId) : σ.writer ≠ .fail t := by rw [idle]; intro h; cases h
    constructor
    · intro t ht
      dsimp only [writeStart] at ht
      split at ht
      · rename_i u hu
        obtain rfl : u = t := by simpa [WritePc.loops] using ht
        exact owned_of_active hi.control.custody (Peer.captureSocket_eq_some.mp hu).2.2
      · cases ht
    · intro t hf
      refine old hnotFail hf ?_ id
      have hr := ((hw.failed t hf).2.resolve_left (hnotFail t)).1
      dsimp only [writeStart]
      split
      · rename_i u hu
        refine beq_eq_false_iff_ne.mpr ?_
        rintro rfl
        exact hr.captureSocket σ.device hu
      · rfl
  | dequeue u hpc =>
    have hnotFail (t : SockId) : σ.writer ≠ .fail t := by rw [hpc]; intro h; cases h
    unfold writeDequeue at old ⊢
    split at old
    · exact ⟨(fun _ h => by cases h), fun t hf => old hnotFail hf rfl id⟩
    · refine ⟨fun t ht => hw.pinned t (by rw [hpc]; exact ht), fun t hf => old hnotFail hf ?_ id⟩
      have := quiet hnotFail hf
      rwa [hpc] at this
  | send u frame pc hpc callback next =>
    have hnotFail (t : SockId) : σ.writer ≠ .fail t := by rw [hpc]; intro h; cases h
    have hstage (t : SockId) (howned : (σ.socks t).stage = .owned) :
        ((σ.writeSend u frame choice pc).socks t).stage = .owned := by
      by_cases ht : t = u
      · subst ht
        simpa [writeSend, sendSock] using howned
      · simpa [writeSend, ht] using howned
    have howned := hw.pinned u (by simp [hpc, WritePc.loops])
    rcases SendResult.next_loops next with ⟨hfailed, rfl⟩ | ⟨hgood, hloops⟩
    · refine ⟨(fun _ h => by cases h), fun t hf => ?_⟩
      by_cases ht : t = u
      · subst ht
        exact ⟨hstage t howned, .inl rfl⟩
      · exact old hnotFail (by simpa [writeSend, ht] using hf) rfl (hstage t)
    · refine ⟨fun t ht => hstage t (hw.pinned t ?_), fun t hf => ?_⟩
      · rw [hpc, ← hloops]
        exact ht
      · have hf' : (σ.socks t).sendFailed = true := by
          by_cases ht : t = u
          · subst ht
            simpa [writeSend, sendSock, hgood] using hf
          · simpa [writeSend, ht] using hf
        refine old hnotFail hf' ?_ (hstage t)
        have := quiet hnotFail hf'
        rw [hpc, ← hloops] at this
        exact this
  | requeue u rest hpc =>
    have hnotFail (t : SockId) : σ.writer ≠ .fail t := by rw [hpc]; intro h; cases h
    exact ⟨(fun _ h => by cases h), fun t hf => old hnotFail hf rfl id⟩
  | arm u hpc =>
    have hnotFail (t : SockId) : σ.writer ≠ .fail t := by rw [hpc]; intro h; cases h
    refine ⟨(fun _ h => by cases h), fun t hf => ?_⟩
    by_cases ht : t = u
    · subst ht
      exact old hnotFail (by simpa [writeArm] using hf) rfl (by simp [writeArm])
    · exact old hnotFail (by simpa [writeArm, ht] using hf) rfl (by simp [writeArm, ht])
  | fail u hpc =>
    refine ⟨(fun _ h => by cases h), fun t hf => ?_⟩
    obtain ⟨howned, hfailed⟩ := hw.failed t hf
    refine ⟨howned, .inr ⟨?_, rfl⟩⟩
    rcases hfailed with hfail | ⟨hr, -⟩
    · obtain rfl : u = t := WritePc.fail.inj (hpc.symm.trans hfail)
      exact writeFail_retired hi hpc hhandled
    · exact hkeep.retired hr
  | finish captured hpc =>
    have hnotFail (t : SockId) : σ.writer ≠ .fail t := by rw [hpc]; intro h; cases h
    exact ⟨(fun _ h => by cases h), fun t hf => old hnotFail hf rfl id⟩

theorem step_sendOk {A : SkbAllocator} {queueLimit : Nat} {a : Action} (hi : σ.Sound)
    (hw : σ.SendOk) (hcond : σ.FailHandled a) (h : σ.step A queueLimit a = some τ) : τ.SendOk := by
  have retired {t : SockId} := step_retired (s := t) hi.control hcond.2 h
  have keep (hwriter : τ.writer = σ.writer)
      (hsocks : ∀ t, ((σ.socks t).stage = .owned → (τ.socks t).stage = .owned) ∧
        (τ.socks t).sendFailed = (σ.socks t).sendFailed) : τ.SendOk := by
    constructor
    · rw [hwriter]
      exact fun t ht => (hsocks t).1 (hw.pinned t ht)
    · rw [hwriter]
      intro t hf
      obtain ⟨howned, hfailed⟩ := hw.failed t ((hsocks t).2 ▸ hf)
      exact ⟨(hsocks t).1 howned, hfailed.imp_right (And.imp_left (retired howned))⟩
  rcases step_beside hi.control h with ⟨choice, rfl⟩ | ⟨choice, rfl⟩ | hbeside
  · refine keep ?_ fun t => ?_
    · cases readStep_cases h <;> rfl
    · cases readStep_cases h with
      | pass u n =>
        by_cases ht : t = u
        · subst ht
          simp [readPass, readSock]
        · simp [readPass, ht]
      | _ => exact ⟨id, rfl⟩
  · exact writeStep_sendOk hi hw hcond.1 h
  · exact keep hbeside.writer fun t => ⟨(hbeside.socks t).stage, (hbeside.socks t).sendFailed⟩

/-- Nothing is written to a socket on which a send has failed. -/
theorem step_wire {A : SkbAllocator} {queueLimit : Nat} {a : Action} (hi : σ.Sound)
    (hw : σ.SendOk) (hf : (σ.socks s).sendFailed = true) (h : σ.step A queueLimit a = some τ) :
    (τ.socks s).sendFailed = true ∧ (τ.socks s).wire = (σ.socks s).wire := by
  rcases step_beside hi.control h with ⟨choice, rfl⟩ | ⟨choice, rfl⟩ | hbeside
  · cases readStep_cases h with
    | pass u n =>
      by_cases ht : s = u
      · subst ht
        simpa [readPass, readSock] using hf
      · simpa [readPass, ht] using hf
    | _ => exact ⟨hf, rfl⟩
  · cases writeStep_cases h with
    | dequeue u =>
      unfold writeDequeue
      split <;> exact ⟨hf, rfl⟩
    | send u frame pc hpc =>
      have hne : s ≠ u := by
        rintro rfl
        rcases (hw.failed s hf).2 with hfail | ⟨-, hloops⟩
        · simp [hpc] at hfail
        · simp [hpc, WritePc.loops] at hloops
      simpa [writeSend, hne] using hf
    | arm u =>
      by_cases ht : s = u
      · subst ht
        simpa [writeArm] using hf
      · simpa [writeArm, ht] using hf
    | _ => exact ⟨hf, rfl⟩
  · exact ⟨(hbeside.socks s).sendFailed.trans hf, (hbeside.socks s).wire⟩

variable {A : SkbAllocator} {queueLimit : Nat} {tempPeer : Bool} {addressing : Addressing}
  {as : List Action}

theorem Reaches.sendOk (h : Reaches A queueLimit tempPeer addressing as σ)
    (hcond : Transition.Meets (step A queueLimit) FailHandled (.init tempPeer addressing) as) :
    σ.Sound ∧ σ.SendOk :=
  Transition.run_invariant_of_meets (I := fun σ => σ.Sound ∧ σ.SendOk)
    (fun _ _ _ hi hcond h => ⟨hi.1.step h, step_sendOk hi.1 hi.2 hcond h⟩)
    ⟨sound_init tempPeer addressing, sendOk_init tempPeer addressing⟩ hcond h

/-- A terminal send stops the stream: as soon as the writer has dealt with it, the peer is done with
the socket, and nothing is written to the socket in any continuation of the run. -/
theorem terminal_send_retires (h : Reaches A queueLimit tempPeer addressing as σ)
    (hcond : Transition.Meets (step A queueLimit) FailHandled (.init tempPeer addressing) as)
    (hf : (σ.socks s).sendFailed = true) :
    (σ.writer ≠ .fail s → σ.peer.Retired s) ∧
    ∀ bs τ, Transition.run (step A queueLimit) σ bs = some τ →
      Transition.Meets (step A queueLimit) FailHandled σ bs →
      (τ.socks s).wire = (σ.socks s).wire := by
  obtain ⟨hsound, hsend⟩ := h.sendOk hcond
  refine ⟨fun hpc => ((hsend.failed s hf).2.resolve_left hpc).1, fun bs τ hrun hbs => ?_⟩
  refine (Transition.run_invariant_of_meets
    (I := fun ρ => (ρ.Sound ∧ ρ.SendOk) ∧ (ρ.socks s).sendFailed = true ∧
      (ρ.socks s).wire = (σ.socks s).wire) ?_ ⟨⟨hsound, hsend⟩, hf, rfl⟩ hbs hrun).2.2
  rintro ρ a ρ' ⟨⟨hi, hw⟩, hf, hwire⟩ hcond hstep
  obtain ⟨hf', hwire'⟩ := step_wire hi hw hf hstep
  exact ⟨⟨hi.step hstep, step_sendOk hi hw hcond hstep⟩, hf', hwire'.trans hwire⟩

/-- The dialed socket gets established, a frame is accepted for it, and its send fails. -/
def failedDialRun : List Action :=
  dialRun ++ [.kernel (.transition 0 .established)] ++ List.replicate 5 (.callback 0) ++
    [.request (.enqueue [1, 2]), writes .eagain, writes .eagain, writes .failed, writes .eagain]

theorem terminal_send_retires_dialed : ∃ σ,
    Reaches exactAllocator 4 false .unset failedDialRun σ ∧ (σ.socks 0).sendFailed = true ∧
    σ.peer.links.peerSocket = some 0 ∧ σ.peer.Retired 0 := by
  have hrun : ((Transition.run (step exactAllocator 4) (.init false .unset) failedDialRun).any
      fun σ => decide ((σ.socks 0).sendFailed = true ∧ σ.peer.links.peerSocket = some 0 ∧
        σ.writer ≠ .fail 0)) = true := by
    decide +kernel
  obtain ⟨σ, hσ, hcheck⟩ := Transition.exists_run_of_any hrun
  obtain ⟨hf, hactive, hpc⟩ := of_decide_eq_true hcheck
  exact ⟨σ, hσ, hf, hactive, (terminal_send_retires hσ (by decide +kernel) hf).1 hpc⟩

/-- A frame is accepted for a promoted carrier, its send fails, and the writer returns. -/
def failedPromotedRun : List Action :=
  inboundRun ++ [.request (.enqueue [1, 2]), writes .eagain, writes .eagain, writes .failed,
    writes .eagain, writes .eagain]

/-- The failure of a promoted carrier goes unnoticed, and the next frame is written behind it. -/
theorem terminal_send_retires_fails : ∃ σ τ,
    Reaches exactAllocator 4 false .unset failedPromotedRun σ ∧
    Reaches exactAllocator 4 false .unset
      (failedPromotedRun ++ [.request (.enqueue [3]), writes .eagain, writes .eagain,
        writes (.sent 1)]) τ ∧
    (σ.socks 0).sendFailed = true ∧ σ.writer = .idle ∧ ¬ σ.peer.Retired 0 ∧
    (σ.socks 0).wire = [] ∧ (τ.socks 0).wire = [3] := by
  have hrun : ((Transition.run (step exactAllocator 4) (.init false .unset) failedPromotedRun).any
      fun σ => decide ((σ.socks 0).sendFailed = true ∧ σ.writer = .idle ∧ ¬ σ.peer.Retired 0 ∧
        (σ.socks 0).wire = [])) = true := by
    decide +kernel
  have hlater : ((Transition.run (step exactAllocator 4) (.init false .unset)
      (failedPromotedRun ++ [.request (.enqueue [3]), writes .eagain, writes .eagain,
        writes (.sent 1)])).any fun τ => decide ((τ.socks 0).wire = [3])) = true := by
    decide +kernel
  obtain ⟨σ, hσ, hcheck⟩ := Transition.exists_run_of_any hrun
  obtain ⟨τ, hτ, hwire⟩ := Transition.exists_run_of_any hlater
  obtain ⟨hf, hpc, hactive, hnone⟩ := of_decide_eq_true hcheck
  exact ⟨σ, τ, hσ, hτ, hf, hpc, hactive, hnone, of_decide_eq_true hwire⟩

end State

end WgTcp
