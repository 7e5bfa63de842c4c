import WgTcp.Peer.Control

/-!
# What the holder of `tcp_socket_lock` does

Under `State.Control` every step of the holder is one of the moves below: the
branches that report a failed teardown are gone, and what a section does to
the peer is spelled out. Everything that is shown of a holder's step goes by
cases on `State.LockedMove`.
-/

namespace WgTcp

/-! ## Sections under the lock -/

namespace Peer

variable {d : Device} {p q : Peer} {s : SockId}

theorem connectGate_dial (h : p.connectGate d = .dial q) :
    p.live d = true ∧ p.addressing.peerEndpointSet = true ∧ p.outboundRemove.scheduled = false ∧
      p.links.peerSocket = none ∧
      q = { p with
        conn := { p.conn with
          connecting := true, pending := true, established := false, outbound := false }
        hooks := { p.hooks with outboundSet := false } } := by
  unfold connectGate at h
  split at h
  · cases h
  split at h
  · cases h
  split at h
  · cases h
  · cases h
    simp_all

theorem connectPublish_some (h : p.connectPublish d s = some q) :
    p.live d = true ∧
      q = { p with links := { p.links with peerSocket := some s, outboundSocket := some s } } := by
  obtain ⟨hg, ⟨⟩⟩ := Option.ite_none_left_eq_some.mp h
  simp_all

theorem connectFinish_some {skState : TcpState} {first : Bool} (hlinks : p.links = .on s false)
    (h : p.connectFinish d s skState = some (first, q)) :
    p.live d = true ∧ skState.dialing = true ∧ ∃ conn : Connection,
      (conn = if skState = .established then ⟨true, false, false, p.conn.inbound, true⟩
        else { p.conn with connecting := false }) ∧
      q = { p with
        conn := conn
        outboundRemove :=
          if p.tcpReconnectRequested && !p.outboundRemove.scheduled then .claim (some s)
          else p.outboundRemove
        retry :=
          if !(p.tcpReconnectRequested && !p.outboundRemove.scheduled) && conn.pending &&
              !p.retry.scheduled then .queued
          else p.retry } := by
  obtain ⟨hg, h⟩ := Option.ite_none_left_eq_some.mp h
  simp only [Option.some.injEq, Prod.mk.injEq] at h
  obtain ⟨-, rfl⟩ := h
  refine ⟨by simp_all, by simp_all, _, rfl, ?_⟩
  by_cases hest : skState = .established
  · simp [hest, wgTcpPublishOutboundEstablishedLocked, hlinks, Links.on]
    split <;> simp_all
  · simp [hest]
    split <;> simp_all
    split <;> simp_all

theorem unwindClaim_on (h : p.links = .on s false) :
    p.unwindClaim s = (true, { p with outboundRemove := p.outboundRemove.mark (some s) }) := by
  simp [unwindClaim, h, Links.on]

theorem unwindClaim_none (h : p.links = .none) : p.unwindClaim s = (false, p) := by
  simp [unwindClaim, h, Links.none]

theorem handoverClaim_some (h : p.handoverClaim s = some q) :
    p.links.inboundSocket = some s ∧ q = { p with
      isDead := true, tcpStopping := true, inboundRemove := p.inboundRemove.mark (some s) } := by
  obtain ⟨hg, ⟨⟩⟩ := Option.ite_none_left_eq_some.mp h
  simp_all

end Peer

/-- Callbacks are installed on a new socket: from, socket, direction, to. -/
inductive Holder.SetsUp : Holder → SockId → Bool → Holder → Prop where
  | connect (caller : Caller) (s : SockId) :
      SetsUp (.connectSetup caller s) s false (.connectStart caller s)
  | promote (s : SockId) : SetsUp (.promoteSetup s) s true .promoteRearm
  | install (s : SockId) : SetsUp (.installSetup s) s true (.installList s)

/-- The surviving stream is armed again: from, to. -/
inductive Holder.Rearms : Holder → Holder → Prop where
  | outbound (post : OutboundPost) : Rearms (.outboundRearm post) (.outboundUnlock post)
  | inbound : Rearms .inboundRearm .inboundUnlock
  | promote : Rearms .promoteRearm .promoteUnlock

namespace State

/-! ## What the ownership of a socket implies -/

variable {σ τ : State} {h k : Holder}

theorem Custody.links_none (hc : σ.Custody) (h : σ.peer.links.peerSocket = none) :
    σ.peer.links = .none := by
  rcases hc.links with hl | ⟨s, inbound, hl, _⟩
  · exact hl
  · rw [hl] at h
    cases h

/-- Callbacks are installed on the current socket only. -/
theorem Custody.unhooked (hc : σ.Custody) (h : σ.peer.links = .none) : σ.Unhooked := by
  rcases hc.hooks with hh | ⟨s, inbound, hl, _⟩
  · exact hh
  · rw [h] at hl
    cases hl

theorem Custody.unhooked_of_hooks (hc : σ.Custody) (h : σ.peer.hooks = .none) : σ.Unhooked := by
  rcases hc.hooks with hh | ⟨s, inbound, _, hh, _⟩
  · exact hh
  · rw [h] at hh
    cases inbound <;> cases hh

theorem Custody.on_socketOf (hc : σ.Custody) {s : SockId} {inbound : Bool}
    (hs : σ.peer.socketOf inbound = some s) : σ.peer.links = .on s inbound := by
  rcases hc.links with hl | ⟨t, b, hl, -⟩
  · cases inbound <;> simp [Peer.socketOf, hl, Links.none] at hs
  · rw [hl]
    cases inbound <;> cases b <;> simp_all [Peer.socketOf, Links.on]

/-- A callback holds the peer's socket. -/
theorem Custody.on_of_hook (hc : σ.Custody) {s : SockId} {inbound : Bool}
    (hook : (σ.socks s).userData = some inbound) :
    σ.peer.links = .on s inbound ∧ σ.peer.hooks = .on s inbound := by
  rcases hc.hooks with hu | ⟨t, b, hl, hh, hu⟩
  · simp [hu.userData] at hook
  · rw [hu] at hook
    split at hook
    · obtain rfl := Option.some.inj hook
      subst s
      exact ⟨hl, hh⟩
    · cases hook

/-- The socket of a clean claim is the peer's. -/
theorem removalView_clean (hc : σ.Custody) {s : SockId} {inbound : Bool}
    (hclean : (σ.peer.removalView inbound).clean = true)
    (hs : (σ.peer.removalView inbound).socket = some s) :
    σ.peer.links = .on s inbound ∧ (σ.peer.removalView inbound).active = true ∧
      (σ.peer.removalOf inbound).scheduled = true := by
  have hsocket : (σ.peer.removalOf inbound).socket = some s := hs
  have hlinks : σ.peer.links = .on s inbound :=
    hc.on_socketOf (by simpa [Peer.removalView, hsocket] using hclean)
  refine ⟨hlinks, ?_, ?_⟩
  · cases inbound <;> simp [Peer.removalView, Peer.socketOf, hsocket, hlinks, Links.on]
  · cases inbound with
    | false => exact hc.claimOutbound (Option.isSome_of_eq_some hsocket)
    | true => exact hc.claimInbound (Option.isSome_of_eq_some hsocket)

/-- Resetting the callbacks of the peer's socket succeeds. -/
theorem reset_ok (hc : σ.Custody) {s : SockId} {inbound : Bool}
    (hlinks : σ.peer.links = .on s inbound) :
    σ.peer.wgResetExactTcpSocketCallbacks (σ.socks s) s =
      .ok ({ σ.peer with hooks := .none }, { σ.socks s with userData := none }) := by
  refine Peer.wgResetExactTcpSocketCallbacks_on hlinks ?_
  rcases hc.hooks with hu | ⟨t, b, hl, hh, hu⟩
  · exact .inr ⟨hu.hooks, hu.userData s⟩
  · obtain ⟨rfl, rfl⟩ : t = s ∧ b = inbound := by
      rw [hlinks] at hl
      cases inbound <;> cases b <;> simp_all [Links.on]
    exact .inl ⟨hh, by simp [hu]⟩

/-! ## Moves -/

/-- The holder goes on without touching anything. -/
inductive Passes (σ : State) : Holder → Holder → Prop where
  | connectDone (caller : Caller) (failed : Bool) :
      Passes σ (.connectGate caller) (.connectReturn caller failed none)
  | createFailed (caller : Caller) : Passes σ (.connectCreate caller) (.unwind caller none)
  | publishFailed (caller : Caller) (s : SockId) :
      Passes σ (.connectPublish caller s) (.unwind caller (some s))
  | connectSetupFailed (caller : Caller) (s : SockId) :
      Passes σ (.connectSetup caller s) (.unwind caller (some s))
  | startFailed (caller : Caller) (s : SockId) :
      Passes σ (.connectStart caller s) (.unwind caller (some s))
  | finishFailed (caller : Caller) (s : SockId) :
      Passes σ (.connectFinish caller s) (.unwind caller (some s))
  | unwindUnowned (caller : Caller) (s : Option SockId) (links : σ.peer.links = .none) :
      Passes σ (.unwind caller s) (.unwindFinish caller)
  | inboundClean (s : SockId) (links : σ.peer.links = .on s true)
      (scheduled : σ.peer.inboundRemove.scheduled = true)
      (socket : σ.peer.inboundRemove.socket = some s) :
      Passes σ .inboundView (.drain [s] (.detach s .inbound) true)
  | inboundStale : Passes σ .inboundView (.inboundFinish false)
  | promoteStale (s : SockId) (connectionId : Nat) :
      Passes σ (.promoteCheck s connectionId) .promoteUnlock
  | promoteRefused (s : SockId) : Passes σ (.promoteDetach s) .promoteUnlock
  | promoteDetached (s : SockId) : Passes σ (.promoteDetach s) (.promoteClaim s)
  | promoteSetupFailed (s : SockId) : Passes σ (.promoteSetup s) (.promoteForget s)
  | promoteForget (s : SockId) : Passes σ (.promoteForget s) (.release s .rollback)
  | bootstrapGreet (s : SockId) : Passes σ (.bootstrapGreet s) .bootstrapUnlock
  | installSetupFailed (s : SockId) : Passes σ (.installSetup s) .installFail
  | installListed (s : SockId) : Passes σ (.installList s) (.installData s)
  | installUnlisted (s : SockId) : Passes σ (.installList s) .installFail
  | installNoData (s : SockId) (empty : (σ.socks s).receiveQueue = []) :
      Passes σ (.installData s) (.installFinish s)
  | drained (plan : Plan) : Passes σ (.drain [] plan true) (.cancelRead plan)
  | drain (s : SockId) (rest : List SockId) (plan : Plan)
      (callback : (σ.socks s).callbackRunning = false) :
      Passes σ (.drain (s :: rest) plan true) (.drain rest plan true)

/-- The ways in which the holder moves. -/
inductive LockedMove (σ : State) : Holder → State → Prop where
  | pass {h k : Holder} (passes : σ.Passes h k) : LockedMove σ h (σ.hold k)
  | dial (caller : Caller) (live : σ.peer.live σ.device = true)
      (endpoint : σ.peer.addressing.peerEndpointSet = true)
      (free : σ.peer.outboundRemove.scheduled = false) (links : σ.peer.links = .none) :
      LockedMove σ (.connectGate caller)
        ((σ.setPeer { σ.peer with conn := { σ.peer.conn with
          connecting := true, pending := true, established := false, outbound := false } }).hold
          (.connectCreate caller))
  | create (caller : Caller) (s : SockId) (unused : (σ.socks s).stage = .unused) :
      LockedMove σ (.connectCreate caller)
        ((σ.setSock s { σ.socks s with stage := .dialing }).hold (.connectPublish caller s))
  | connectPublish (caller : Caller) (s : SockId) (live : σ.peer.live σ.device = true) :
      LockedMove σ (.connectPublish caller s)
        (((σ.setPeer { σ.peer with links := .on s false }).setSock s
          { σ.socks s with stage := .owned }).hold (.connectSetup caller s))
  | setup {h k : Holder} {s : SockId} {inbound : Bool} (setsUp : h.SetsUp s inbound k)
      (live : σ.peer.live σ.device = true)
      (free : (σ.peer.removalOf inbound).scheduled = false)
      (callback : (σ.socks s).callbackRunning = false) :
      LockedMove σ h
        (((σ.setPeer { σ.peer with hooks := .on s inbound }).setSock s
          { σ.socks s with userData := some inbound }).hold k)
  | start (caller : Caller) (s : SockId) (callback : (σ.socks s).callback = none) :
      LockedMove σ (.connectStart caller s)
        ((σ.setSock s { σ.socks s with skState := .synSent }).hold (.connectFinish caller s))
  | connectFinish (caller : Caller) (s : SockId) (first : Bool) (p : Peer)
      (finish : σ.peer.connectFinish σ.device s (σ.socks s).skState = some (first, p)) :
      LockedMove σ (.connectFinish caller s)
        ((σ.setPeer p).hold (.connectReturn caller false (if first then some s else none)))
  | unwindClaim (caller : Caller) (s : SockId) (links : σ.peer.links = .on s false) :
      LockedMove σ (.unwind caller (some s))
        ((σ.setPeer { σ.peer with outboundRemove := σ.peer.outboundRemove.mark (some s) }).hold
          (.cancelRead (.detach s (.unwind caller))))
  | unwindFinish (caller : Caller) :
      LockedMove σ (.unwindFinish caller)
        ((σ.setPeer (σ.peer.unwindFinish σ.device).2).hold
          (if (σ.peer.unwindFinish σ.device).1 then .unwindQueue caller
            else .connectReturn caller true none))
  | unwindQueue (caller : Caller) :
      LockedMove σ (.unwindQueue caller)
        ((σ.setPeer σ.peer.unwindQueue).hold (.connectReturn caller true none))
  | connectReturn (caller : Caller) (failed : Bool) (greet : Option SockId) (pc : Option DialPc) :
      LockedMove σ (.connectReturn caller failed greet)
        { σ.setCaller caller pc with lock := none }
  | outboundClean (retryNeeded : Bool) (s : SockId) (links : σ.peer.links = .on s false)
      (scheduled : σ.peer.outboundRemove.scheduled = true)
      (socket : σ.peer.outboundRemove.socket = some s) :
      LockedMove σ (.outboundView retryNeeded)
        ((σ.setPeer σ.peer.outboundRemoveBegin).hold
          (.drain [s] (.detach s (.outbound retryNeeded)) true))
  | outboundStale (retryNeeded reclaim : Bool)
      (stale : reclaim = true → σ.peer.outboundRemove.socket ≠ σ.peer.links.outboundSocket)
      (clean : reclaim = false → σ.peer.links.outboundSocket = none) :
      LockedMove σ (.outboundView retryNeeded)
        ((σ.setPeer σ.peer.outboundRemoveBegin).hold (.outboundFinish retryNeeded reclaim false))
  | outboundFinish (retryNeeded reclaim : Bool) :
      LockedMove σ (.outboundFinish retryNeeded reclaim false)
        ((σ.setPeer (σ.peer.outboundRemoveFinish false)).hold
          (.outboundRearm ⟨retryNeeded, σ.peer.tcpReconnectRequested, σ.peer.tcpStopping, reclaim,
            false⟩))
  | outboundUnlock (post : OutboundPost) :
      LockedMove σ (.outboundUnlock post) { σ with lock := none, outbound := .post post }
  | inboundFinish :
      LockedMove σ (.inboundFinish false)
        ((σ.setPeer (σ.peer.inboundRemoveFinish false)).hold .inboundRearm)
  | inboundUnlock : LockedMove σ .inboundUnlock { σ with lock := none, inbound := .idle }
  | rearm {h k : Holder} (rearms : h.Rearms k) :
      LockedMove σ h
        ((σ.setPeer (σ.peer.wgTcpRearmSurvivingStreamLocked σ.device σ.activeQueue)).hold k)
  | promoteCheck (s : SockId) (connectionId : Nat) :
      LockedMove σ (.promoteCheck s connectionId)
        ((σ.setPeer { σ.peer with addressing := { σ.peer.addressing with
          tcpRoamingConnectionId := connectionId } }).hold (.promoteDetach s))
  | promoteFree (s : SockId) (links : σ.peer.links = .none) :
      LockedMove σ (.promoteClaim s) ((σ.setPeer σ.peer.promoteClaim).hold (.promotePublish s))
  | promoteClaim (s t : SockId) (inbound : Bool) (links : σ.peer.links = .on t inbound) :
      LockedMove σ (.promoteClaim s)
        ((σ.setPeer σ.peer.promoteClaim).hold
          (.cancelRead (.promote s σ.peer.links.inboundSocket σ.peer.links.outboundSocket)))
  | promotePublish (s : SockId) :
      LockedMove σ (.promotePublish s)
        (((σ.setPeer (σ.peer.promotePublish s)).setSock s { σ.socks s with stage := .owned }).hold
          (.promoteSetup s))
  | promoteUnlock : LockedMove σ .promoteUnlock { σ with lock := none, promotion := .take }
  | bootstrapTake (k : Holder) (next : k = .bootstrapUnlock ∨ ∃ s, k = .bootstrapGreet s) :
      LockedMove σ .bootstrapTake ((σ.setPeer σ.peer.takeBootstrap).hold k)
  | bootstrapUnlock : LockedMove σ .bootstrapUnlock { σ with lock := none, bootstrap := .idle }
  | stopReclaim :
      LockedMove σ .stopReclaim
        ((σ.setPeer σ.peer.stopReclaim).hold
          (.drain (σ.peer.links.outboundSocket.toList ++ σ.peer.links.inboundSocket.toList)
            (.stop σ.peer.links.outboundSocket σ.peer.links.inboundSocket) true))
  | stopPurgeNone (links : σ.peer.links = .none) :
      LockedMove σ (.stopPurge σ.peer.links.outboundSocket σ.peer.links.inboundSocket)
        ((σ.setPeer σ.peer.purgeSendQueue).hold (.stopUnlock false))
  | stopPurge (s : SockId) (inbound : Bool) (links : σ.peer.links = .on s inbound) :
      LockedMove σ (.stopPurge σ.peer.links.outboundSocket σ.peer.links.inboundSocket)
        ((σ.setPeer σ.peer.purgeSendQueue).hold
          (.reset s (if inbound then .stopInbound false else .stopOutbound none)))
  | stopUnlock : LockedMove σ (.stopUnlock false) { σ with lock := none, stop := .finish false }
  | installData (s : SockId) :
      LockedMove σ (.installData s)
        ((σ.setPeer (σ.peer.wgTcpDataReady σ.device)).hold (.installFinish s))
  | installFinish (s : SockId) :
      LockedMove σ (.installFinish s)
        { σ.setPeer (σ.peer.finishInit (σ.socks s).skState) with lock := none }
  | installFail :
      LockedMove σ .installFail
        { σ with lock := none, stop := if σ.stop = StopPc.idle then .begin else σ.stop }
  | destroyed :
      LockedMove σ (.destroyed false)
        { σ.setPeer { σ.peer with streamWq := false } with lock := none, stop := .done }
  | handoverNothing (s : SockId) : LockedMove σ (.handoverClaim s) { σ with lock := none }
  | handoverClaim (s : SockId) (links : σ.peer.links = .on s true) :
      LockedMove σ (.handoverClaim s)
        ((σ.setPeer { σ.peer with
          isDead := true, tcpStopping := true
          inboundRemove := σ.peer.inboundRemove.mark (some s) }).hold
          (.drain [s] (.handover s) true))
  | handoverReset (s : SockId) (callback : (σ.socks s).callbackRunning = false) :
      LockedMove σ (.handoverReset s)
        (((σ.setPeer { σ.peer with hooks := .none }).setSock s
          { σ.socks s with userData := none }).hold .handoverDetach)
  | handoverDetach :
      LockedMove σ .handoverDetach { σ.setPeer σ.peer.handoverDetach with lock := none }
  | cancelRead (plan : Plan) (idle : σ.reader = .idle) :
      LockedMove σ (.cancelRead plan)
        ((σ.setPeer { σ.peer with read := { σ.peer.read with work := false } }).hold
          (.cancelWrite plan))
  | cancelWrite (plan : Plan) (idle : σ.writer = .idle) :
      LockedMove σ (.cancelWrite plan)
        ((σ.setPeer { σ.peer with write := { σ.peer.write with work := false } }).hold
          (.clearFlags plan))
  | clearFlags (plan : Plan) :
      LockedMove σ (.clearFlags plan) ((σ.setPeer (plan.clear σ.peer)).hold plan.next)
  | reset (s : SockId) (owner : Owner) (callback : (σ.socks s).callbackRunning = false) :
      LockedMove σ (.reset s owner)
        (((σ.setPeer { σ.peer with hooks := .none }).setSock s
          { σ.socks s with userData := none }).hold (.release s owner))
  | release (s : SockId) (owner : Owner) :
      LockedMove σ (.release s owner)
        ((σ.setPeer { σ.peer with
          links := .none
          parser := Parser.empty
          conn := ⟨false, false, σ.peer.conn.connecting, !owner.onInbound && σ.peer.conn.inbound,
            owner.onInbound && σ.peer.conn.outbound⟩
          retry := { σ.peer.retry with scheduled := false } }).hold (.purge s owner))
  | purge (s : SockId) (owner : Owner) :
      LockedMove σ (.purge s owner) ((σ.setPeer σ.peer.purgeSendQueue).hold (.shutdown s owner))
  | shutdown (s : SockId) (owner : Owner) :
      LockedMove σ (.shutdown s owner)
        ((σ.setSock s { σ.socks s with skState := .close }).hold (owner.next s false))

/-! ## Inversion -/

variable {choice : Choice}

theorem connectStep_cases (hc : σ.Control) (hl : σ.lock = some h)
    (hs : σ.connectStep choice h = some τ) : σ.LockedMove h τ := by
  obtain ⟨hok, -⟩ := hc.holder h hl
  cases h with
  | connectGate caller =>
    simp only [connectStep] at hs
    split at hs
    · cases hs
      exact .pass (.connectDone caller false)
    · cases hs
      exact .pass (.connectDone caller true)
    · rename_i p hp
      cases hs
      obtain ⟨hlive, hendpoint, hfree, hnone, rfl⟩ := Peer.connectGate_dial hp
      have hlinks := hc.custody.links_none hnone
      have hhooks : ({ σ.peer.hooks with outboundSet := false } : Hooks) = σ.peer.hooks := by
        simp [(hc.custody.unhooked hlinks).hooks, Hooks.none]
      rw [hhooks]
      exact .dial caller hlive hendpoint hfree hlinks
  | connectCreate caller =>
    simp only [connectStep] at hs
    split at hs
    · cases hs
      exact .pass (.createFailed caller)
    · obtain ⟨hunused, ⟨⟩⟩ := Option.ite_none_right_eq_some.mp hs
      exact .create caller _ hunused
  | connectPublish caller s =>
    simp only [connectStep] at hs
    split at hs
    · cases hs
      exact .pass (.publishFailed caller s)
    · rename_i p hp
      cases hs
      obtain ⟨hlive, rfl⟩ := Peer.connectPublish_some hp
      have hlinks : ({ σ.peer.links with peerSocket := some s, outboundSocket := some s } : Links) =
          .on s false := by
        rw [hok.1]
        rfl
      rw [hlinks]
      exact .connectPublish caller s hlive
  | connectSetup caller s =>
    simp only [connectStep] at hs
    split at hs
    · cases hs
    rename_i hcb
    split at hs
    · cases hs
      exact .pass (.connectSetupFailed caller s)
    · rename_i p sk hp
      cases hs
      obtain ⟨hlive, hfree, rfl, rfl⟩ := Peer.wgSetupTcpSocketCallbacks_ok hok.1 hok.2 hp
      exact .setup (.connect caller s) hlive hfree (by simpa using hcb)
  | connectStart caller s =>
    simp only [connectStep] at hs
    split at hs
    · cases hs
      exact .pass (.startFailed caller s)
    · obtain ⟨hcb, ⟨⟩⟩ := Option.ite_none_left_eq_some.mp hs
      exact .start caller s (by simpa using hcb)
  | connectFinish caller s =>
    simp only [connectStep] at hs
    split at hs
    · cases hs
      exact .pass (.finishFailed caller s)
    · rename_i first p hp
      cases hs
      exact .connectFinish caller s first p hp
  | unwind caller s =>
    cases s with
    | none =>
      cases hs
      exact .pass (.unwindUnowned caller none hok)
    | some s =>
      simp only [connectStep] at hs
      rcases hok with hlinks | hlinks
      · rw [Peer.unwindClaim_on hlinks] at hs
        cases hs
        exact .unwindClaim caller s hlinks
      · rw [Peer.unwindClaim_none hlinks] at hs
        cases hs
        exact .pass (.unwindUnowned caller _ hlinks)
  | unwindFinish caller =>
    cases hs
    exact .unwindFinish caller
  | unwindAbort caller => exact hok.elim
  | unwindQueue caller =>
    cases hs
    exact .unwindQueue caller
  | connectReturn caller failed greet =>
    cases hs
    exact .connectReturn caller failed greet _
  | _ => cases hs

theorem removeStep_cases (hc : σ.Control) (hl : σ.lock = some h)
    (hs : σ.removeStep h = some τ) : σ.LockedMove h τ := by
  obtain ⟨hok, -⟩ := hc.holder h hl
  cases h with
  | outboundView retryNeeded =>
    simp only [removeStep] at hs
    split at hs
    · rename_i hclean
      split at hs
      · rename_i s hsock
        cases hs
        obtain ⟨hlinks, hactive, hsched⟩ := removalView_clean hc.custody hclean hsock
        rw [hactive]
        exact .outboundClean retryNeeded s hlinks hsched hsock
      · rename_i hsock
        cases hs
        refine .outboundStale retryNeeded false (by simp) fun _ => ?_
        exact (beq_iff_eq.mp hclean).trans hsock
    · rename_i hclean
      cases hs
      refine .outboundStale retryNeeded true (fun _ heq => hclean ?_) (by simp)
      exact beq_iff_eq.mpr heq.symm
  | outboundFinish retryNeeded reclaim failed =>
    obtain rfl : failed = false := hok
    cases hs
    exact .outboundFinish retryNeeded reclaim
  | outboundRearm post =>
    cases hs
    exact .rearm (.outbound post)
  | outboundUnlock post =>
    cases hs
    exact .outboundUnlock post
  | inboundView =>
    simp only [removeStep] at hs
    split at hs
    · rename_i hclean
      split at hs
      · rename_i s hsock
        cases hs
        obtain ⟨hlinks, hactive, hsched⟩ := removalView_clean hc.custody hclean hsock
        rw [hactive]
        exact .pass (.inboundClean s hlinks hsched hsock)
      · cases hs
        exact .pass .inboundStale
    · cases hs
      exact .pass .inboundStale
  | inboundFinish failed =>
    obtain rfl : failed = false := hok
    cases hs
    exact .inboundFinish
  | inboundRearm =>
    cases hs
    exact .rearm .inbound
  | inboundUnlock =>
    cases hs
    exact .inboundUnlock
  | _ => cases hs

theorem promoteStep_cases (hc : σ.Control) (hl : σ.lock = some h)
    (hs : σ.promoteStep choice h = some τ) : σ.LockedMove h τ := by
  obtain ⟨hok, -⟩ := hc.holder h hl
  cases h with
  | promoteCheck s connectionId =>
    simp only [promoteStep] at hs
    split at hs
    · cases hs
      exact .pass (.promoteStale s connectionId)
    · rename_i p hp
      cases hs
      obtain ⟨-, ⟨⟩⟩ := Option.ite_none_left_eq_some.mp hp
      exact .promoteCheck s connectionId
  | promoteDetach s =>
    obtain ⟨-, ⟨⟩⟩ := Option.ite_none_left_eq_some.mp hs
    cases choice.ok with
    | false => exact .pass (.promoteRefused s)
    | true => exact .pass (.promoteDetached s)
  | promoteClaim s =>
    cases hs
    rcases hc.custody.links with hnone | ⟨t, inbound, hlinks, -⟩
    · rw [if_neg (by simp [hnone, Links.none])]
      exact .promoteFree s hnone
    · rw [if_pos (by cases inbound <;> simp [hlinks, Links.on])]
      exact .promoteClaim s t inbound hlinks
  | promotePublish s =>
    cases hs
    exact .promotePublish s
  | promoteSetup s =>
    simp only [promoteStep] at hs
    split at hs
    · cases hs
    rename_i hcb
    split at hs
    · cases hs
      exact .pass (.promoteSetupFailed s)
    · rename_i p sk hp
      cases hs
      obtain ⟨hlive, hfree, rfl, rfl⟩ := Peer.wgSetupTcpSocketCallbacks_ok hok.1 hok.2 hp
      exact .setup (.promote s) hlive hfree (by simpa using hcb)
  | promoteForget s =>
    cases hs
    have hp : σ.peer.promoteForget = σ.peer := by
      have hh := hok.2
      cases hpeer : σ.peer
      simp_all [Peer.promoteForget, Peer.setHooks, Hooks.none]
    rw [hp]
    exact .pass (.promoteForget s)
  | promoteRearm =>
    cases hs
    exact .rearm .promote
  | promoteUnlock =>
    cases hs
    exact .promoteUnlock
  | bootstrapTake =>
    cases hs
    exact .bootstrapTake _ (by split <;> simp)
  | bootstrapGreet s =>
    cases hs
    exact .pass (.bootstrapGreet s)
  | bootstrapUnlock =>
    cases hs
    exact .bootstrapUnlock
  | _ => cases hs

theorem stopStep_cases (hc : σ.Control) (hl : σ.lock = some h)
    (hs : σ.stopStep choice h = some τ) : σ.LockedMove h τ := by
  obtain ⟨hok, -⟩ := hc.holder h hl
  cases h with
  | stopReclaim =>
    cases hs
    exact .stopReclaim
  | stopPurge outbound inbound =>
    cases hs
    obtain ⟨⟨rfl, rfl⟩, -⟩ := hok
    rcases hc.custody.links with hlinks | ⟨s, inbound, hlinks, -⟩
    · have := LockedMove.stopPurgeNone hlinks
      simpa [hlinks, Links.none] using this
    · have := LockedMove.stopPurge s inbound hlinks
      cases inbound <;> simpa [hlinks, Links.on] using this
  | stopUnlock failed =>
    obtain rfl := hok.1
    cases hs
    exact .stopUnlock
  | installSetup s =>
    simp only [stopStep] at hs
    split at hs
    · cases hs
    rename_i hcb
    split at hs
    · cases hs
      exact .pass (.installSetupFailed s)
    · rename_i p sk hp
      cases hs
      obtain ⟨hlive, hfree, rfl, rfl⟩ := Peer.wgSetupTcpSocketCallbacks_ok hok.1 hok.2 hp
      exact .setup (.install s) hlive hfree (by simpa using hcb)
  | installList s =>
    cases hs
    cases choice.ok with
    | false => exact .pass (.installUnlisted s)
    | true => exact .pass (.installListed s)
  | installData s =>
    cases hs
    split
    · exact .pass (.installNoData s (by simp_all))
    · exact .installData s
  | installFinish s =>
    cases hs
    exact .installFinish s
  | installFail =>
    cases hs
    exact .installFail
  | destroyed failed =>
    obtain rfl := hok.1
    cases hs
    exact .destroyed
  | handoverClaim s =>
    simp only [stopStep] at hs
    split at hs
    · cases hs
      exact .handoverNothing s
    · rename_i p hp
      cases hs
      obtain ⟨hin, rfl⟩ := Peer.handoverClaim_some hp
      exact .handoverClaim s (hc.custody.on_socketOf hin)
  | handoverReset s =>
    simp only [stopStep, reset_ok hc.custody hok.1.1] at hs
    obtain ⟨hcb, ⟨⟩⟩ := Option.ite_none_left_eq_some.mp hs
    exact .handoverReset s (by simpa using hcb)
  | handoverDetach =>
    cases hs
    exact .handoverDetach
  | _ => cases hs

theorem teardownStep_cases (hc : σ.Control) (hl : σ.lock = some h)
    (hs : σ.teardownStep h = some τ) : σ.LockedMove h τ := by
  obtain ⟨hok, -⟩ := hc.holder h hl
  cases h with
  | drain sockets plan cancel =>
    obtain rfl := hok.1
    cases sockets with
    | nil =>
      cases hs
      exact .pass (.drained plan)
    | cons s rest =>
      obtain ⟨hcb, ⟨⟩⟩ := Option.ite_none_left_eq_some.mp hs
      exact .pass (.drain s rest plan (by simpa using hcb))
  | cancelRead plan =>
    obtain ⟨hidle, ⟨⟩⟩ := Option.ite_none_right_eq_some.mp hs
    exact .cancelRead plan hidle
  | cancelWrite plan =>
    obtain ⟨hidle, ⟨⟩⟩ := Option.ite_none_right_eq_some.mp hs
    exact .cancelWrite plan hidle
  | clearFlags plan =>
    cases hs
    exact .clearFlags plan
  | reset s owner =>
    simp only [teardownStep, reset_ok hc.custody hok.1] at hs
    obtain ⟨hcb, ⟨⟩⟩ := Option.ite_none_left_eq_some.mp hs
    exact .reset s owner (by simpa using hcb)
  | release s owner =>
    simp only [teardownStep, Peer.releaseSection_on hok.1 hok.2.1] at hs
    rw [if_pos (by simp [hok.1, Links.on])] at hs
    cases hs
    exact .release s owner
  | purge s owner =>
    cases hs
    exact .purge s owner
  | shutdown s owner =>
    cases hs
    exact .shutdown s owner
  | _ => cases hs

theorem lockedStep_cases (hc : σ.Control) (hl : σ.lock = some h)
    (hs : σ.lockedStep choice h = some τ) : σ.LockedMove h τ := by
  unfold lockedStep at hs
  split at hs
  all_goals first
    | exact connectStep_cases hc hl hs
    | exact removeStep_cases hc hl hs
    | exact promoteStep_cases hc hl hs
    | exact stopStep_cases hc hl hs
    | exact teardownStep_cases hc hl hs

end State

end WgTcp
