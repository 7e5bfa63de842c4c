import WgTcp.Peer.ControlRuns

/-!
# What every other step does

Inversion of the steps outside `tcp_socket_lock`, to the extent that the
stream is concerned: kernel events, socket callbacks, requests, threads on
their way to the lock, and the life of the device and the peer. Most sections
leave the stream aside altogether.
-/

namespace WgTcp

/-! ## Sections that leave the stream aside -/

namespace Peer

/-- Neither the connection state nor the stream workers nor the inbound claim are touched. -/
@[mk_iff] structure Aside (d : Device) (p q : Peer) : Prop extends Outside d p q where
  conn : q.conn = p.conn
  read : q.read = p.read
  write : q.write = p.write
  reconnect : p.tcpReconnectRequested = true → q.tcpReconnectRequested = true
  scheduled : q.inboundRemove.scheduled = p.inboundRemove.scheduled
  claimed : q.inboundRemove.socket = p.inboundRemove.socket
  /-- An endpoint that is set stays set. -/
  endpoint : p.addressing.peerEndpointSet = true → q.addressing.peerEndpointSet = true

variable (d : Device) (p : Peer)

theorem Aside.refl : p.Aside d p :=
  { Outside.refl d p with
    conn := rfl, read := rfl, write := rfl, reconnect := id, scheduled := rfl, claimed := rfl
    endpoint := id }

theorem Aside.trans {d : Device} {p q r : Peer} (h : p.Aside d q) (h' : q.Aside d r) :
    p.Aside d r :=
  { h.toOutside.trans h'.toOutside with
    conn := h'.conn.trans h.conn
    read := h'.read.trans h.read
    write := h'.write.trans h.write
    reconnect := h'.reconnect ∘ h.reconnect
    scheduled := h'.scheduled.trans h.scheduled
    claimed := h'.claimed.trans h.claimed
    endpoint := h'.endpoint ∘ h.endpoint }

theorem requestDial_aside : p.Aside d (p.requestDial d) := by
  refine ⟨requestDial_outside d p, ?_, ?_, ?_, ?_, ?_, ?_, ?_⟩ <;> unfold
    requestDial <;> split <;> simp

theorem reconnect_aside : p.Aside d (p.wgTcpPeerRequestReconnectAfter d) := by
  refine ⟨wgTcpPeerRequestReconnectAfter_outside d p, ?_, ?_, ?_, ?_, ?_, ?_, ?_⟩ <;>
    unfold wgTcpPeerRequestReconnectAfter <;> split <;> simp

theorem requestPromotion_aside {p : Peer} (hp : p.tempPeer = false) (connectionId : Nat) :
    p.Aside d (p.requestPromotion connectionId) := by
  refine ⟨requestPromotion_outside d hp connectionId, ?_, ?_, ?_, ?_, ?_, ?_, ?_⟩ <;>
    unfold requestPromotion <;> split <;> simp

theorem addressing_aside (a : Addressing)
    (ha : p.addressing.peerEndpointSet = true → a.peerEndpointSet = true) :
    p.Aside d { p with addressing := a } :=
  { Aside.refl d p with stopped := fun _ => ⟨id, id, id, id, id⟩, endpoint := ha }

theorem takeRetryWork_aside : p.Aside d p.takeRetryWork :=
  ⟨takeRetryWork_outside d p, rfl, rfl, rfl, id, rfl, rfl, id⟩

theorem takeOutboundWork_aside : p.Aside d p.takeOutboundWork :=
  ⟨takeOutboundWork_outside d p, rfl, rfl, rfl, id, rfl, rfl, id⟩

theorem takeInboundWork_aside : p.Aside d p.takeInboundWork :=
  ⟨takeInboundWork_outside d p, rfl, rfl, rfl, id, rfl, rfl, id⟩

theorem takeBootstrapWork_aside : p.Aside d p.takeBootstrapWork :=
  ⟨takeBootstrapWork_outside d p, rfl, rfl, rfl, id, rfl, rfl, id⟩

theorem takePromotionWork_aside : p.Aside d p.takePromotionWork :=
  ⟨takePromotionWork_outside d p, rfl, rfl, rfl, id, rfl, rfl, id⟩

theorem takePromotion_aside : p.Aside d p.takePromotion :=
  ⟨takePromotion_outside d p, rfl, rfl, rfl, id, rfl, rfl, id⟩

theorem beginRetry_aside : p.Aside d (p.beginRetry d).2 := by
  refine ⟨beginRetry_outside d p, ?_, ?_, ?_, ?_, ?_, ?_, ?_⟩ <;> unfold beginRetry <;> repeat'
    split
  all_goals simp

theorem scheduleRetry_aside : p.Aside d p.scheduleRetry := by
  refine ⟨scheduleRetry_outside d p, ?_, ?_, ?_, ?_, ?_, ?_, ?_⟩ <;> unfold
    scheduleRetry <;> split <;> simp

theorem wgTcpQueueCarrierBootstrap_aside (s : SockId) :
    p.Aside d (p.wgTcpQueueCarrierBootstrap s) := by
  refine ⟨wgTcpQueueCarrierBootstrap_outside d p s, ?_, ?_, ?_, ?_, ?_, ?_, ?_⟩ <;>
    unfold wgTcpQueueCarrierBootstrap <;> split <;> simp

theorem queueRemoval_aside (s : SockId) (inbound : Bool) :
    p.Aside d (p.queueRemoval d s inbound) := by
  refine ⟨queueRemoval_outside d p s inbound, ?_, ?_, ?_, ?_, ?_, ?_, ?_⟩ <;> unfold
    queueRemoval <;>
    repeat' split
  all_goals simp

end Peer

/-- Where a thread enters the lock. -/
def Holder.entry : Holder → Bool
  | .connectGate _ | .outboundView _ | .inboundView | .bootstrapTake | .promoteCheck _ _
  | .stopReclaim | .handoverClaim _ | .drain _ (.destroy _) _ => true
  | _ => false

namespace State

variable {σ τ : State}

/-- A step that leaves the stream aside. -/
structure Aside (σ τ : State) : Prop where
  device : τ.device = σ.device
  peer : σ.peer.Aside σ.device τ.peer
  socks : τ.socks = σ.socks
  lock : τ.lock = σ.lock
  reader : τ.reader = σ.reader
  writer : τ.writer = σ.writer
  done : τ.stop = .done ↔ σ.stop = .done

/-! ## Callbacks -/

/-- The steps of a callback on `s`. -/
inductive CallbackMove (σ : State) (s : SockId) : State → Prop where
  | plain (cb : Callback) (due : (σ.socks s).callback = some cb)
      (free : (σ.socks s).userData = none) (other : cb ≠ .writeSpace ∧ cb ≠ .writeSpaceTail) :
      CallbackMove σ s (σ.endCallback s (σ.socks s))
  | plainWriteSpace (cb : Callback) (due : (σ.socks s).callback = some cb)
      (free : (σ.socks s).userData = none) (writeSpace : cb = .writeSpace ∨ cb = .writeSpaceTail) :
      CallbackMove σ s (σ.endCallback s (σ.socks s).originalWriteSpace)
  | dataReady (inbound : Bool) (hook : (σ.socks s).userData = some inbound)
      (due : (σ.socks s).callback = some .dataReady) :
      CallbackMove σ s ((σ.setPeer (σ.peer.wgTcpDataReady σ.device)).endCallback s (σ.socks s))
  | writeSpace (inbound : Bool) (hook : (σ.socks s).userData = some inbound)
      (due : (σ.socks s).callback = some .writeSpace) :
      CallbackMove σ s ((σ.setPeer (σ.peer.wgTcpWriteSpace σ.device)).setSock s
        { σ.socks s with callback := some .writeSpaceTail })
  | writeSpaceTail (inbound : Bool) (hook : (σ.socks s).userData = some inbound)
      (due : (σ.socks s).callback = some .writeSpaceTail) :
      CallbackMove σ s (σ.endCallback s (σ.socks s).originalWriteSpace)
  | stateSkip (inbound : Bool) (hook : (σ.socks s).userData = some inbound)
      (due : (σ.socks s).callback = some .stateChange)
      (skipped : σ.peer.stateChangeSkipped inbound = true) :
      CallbackMove σ s (σ.endCallback s (σ.socks s))
  | stateEnter (inbound : Bool) (hook : (σ.socks s).userData = some inbound)
      (due : (σ.socks s).callback = some .stateChange) :
      CallbackMove σ s (σ.setSock s { σ.socks s with callback := some .stateEntered })
  | stateSection (inbound : Bool) (hook : (σ.socks s).userData = some inbound)
      (due : (σ.socks s).callback = some .stateEntered) :
      CallbackMove σ s
        ((σ.setPeer (σ.peer.stateChangeSection s inbound (σ.socks s).skState).1).setSock s
          { σ.socks s with
            callback :=
              some (.stateTail (σ.peer.stateChangeSection s inbound (σ.socks s).skState).2) })
  | tailRetry (inbound : Bool) (hook : (σ.socks s).userData = some inbound) (tail : StateTail)
      (due : (σ.socks s).callback = some (.stateTail tail)) (cancel : tail.cancelRetry = true) :
      CallbackMove σ s ((σ.setPeer σ.peer.takeRetryWork).setSock s
        { σ.socks s with callback := some (.stateTail { tail with cancelRetry := false }) })
  | tailBootstrap (inbound : Bool) (hook : (σ.socks s).userData = some inbound) (tail : StateTail)
      (due : (σ.socks s).callback = some (.stateTail tail)) (bootstrap : tail.bootstrap = true) :
      CallbackMove σ s ((σ.setPeer (σ.peer.wgTcpQueueCarrierBootstrap s)).setSock s
        { σ.socks s with callback := some (.stateTail { tail with bootstrap := false }) })
  | tailRemoval (inbound : Bool) (hook : (σ.socks s).userData = some inbound) (tail : StateTail)
      (due : (σ.socks s).callback = some (.stateTail tail)) (removal : tail.removal = true) :
      CallbackMove σ s ((σ.setPeer (σ.peer.queueRemoval σ.device s inbound)).setSock s
        { σ.socks s with callback := none })
  | tailEnd (inbound : Bool) (hook : (σ.socks s).userData = some inbound)
      (due : (σ.socks s).callback = some (.stateTail .nothing)) :
      CallbackMove σ s (σ.endCallback s (σ.socks s))

theorem stateTailStep_cases {s : SockId} {inbound : Bool} {tail : StateTail}
    (hook : (σ.socks s).userData = some inbound)
    (due : (σ.socks s).callback = some (.stateTail tail)) :
    σ.CallbackMove s (σ.stateTailStep s inbound tail) := by
  unfold stateTailStep
  split
  · exact .tailRetry inbound hook tail due ‹_›
  split
  · exact .tailBootstrap inbound hook tail due ‹_›
  split
  · exact .tailRemoval inbound hook tail due ‹_›
  · obtain rfl : tail = .nothing := by
      cases tail
      simp_all [StateTail.nothing]
    exact .tailEnd inbound hook due

theorem callbackStep_cases {s : SockId} (h : σ.callbackStep s = some τ) : σ.CallbackMove s τ := by
  unfold callbackStep at h
  split at h
  · cases h
  · obtain rfl := Option.some.inj h
    rename_i cb inbound due hook
    cases cb with
    | dataReady => exact .dataReady inbound hook due
    | writeSpace => exact .writeSpace inbound hook due
    | writeSpaceTail => exact .writeSpaceTail inbound hook due
    | stateChange =>
      simp only [hookStep]
      split
      · exact .stateSkip inbound hook due ‹_›
      · exact .stateEnter inbound hook due
    | stateEntered => exact .stateSection inbound hook due
    | stateTail tail => exact stateTailStep_cases hook due
  · obtain rfl := Option.some.inj h
    rename_i cb due free
    cases cb with
    | writeSpace => exact .plainWriteSpace _ due free (.inl rfl)
    | writeSpaceTail => exact .plainWriteSpace _ due free (.inr rfl)
    | _ => exact .plain _ due free (by simp)

theorem CallbackMove.outside {s : SockId} (h : σ.CallbackMove s τ) :
    σ.peer.Outside σ.device τ.peer := by
  cases h with
  | dataReady => exact Peer.wgTcpDataReady_outside _ _
  | writeSpace => exact Peer.wgTcpWriteSpace_outside _ _
  | stateSection => exact Peer.stateChangeSection_outside _ _ _ _ _
  | tailRetry => exact Peer.takeRetryWork_outside _ _
  | tailBootstrap => exact Peer.wgTcpQueueCarrierBootstrap_outside _ _ _
  | tailRemoval => exact Peer.queueRemoval_outside _ _ _ _
  | _ => exact .refl _ _

/-! ## Requests -/

/-- An accepted frame, or a request that leaves the stream aside. -/
inductive RequestMove (queueLimit : Nat) (σ : State) : State → Prop where
  | accept (frame : Bytes) (s : SockId) (stream : σ.peer.streamOpen σ.device = true)
      (established : σ.peer.conn.established = true) (active : σ.peer.links.peerSocket = some s) :
      RequestMove queueLimit σ
        ((σ.setPeer (Peer.wgTcpScheduleWriteLocked σ.device
          { σ.peer with sendQueue := σ.peer.sendQueue ++ [frame] })).setSock s
          { σ.socks s with accepted := (σ.socks s).accepted ++ [frame] })
  | aside {τ : State} (aside : σ.Aside τ) : RequestMove queueLimit σ τ

theorem Aside.refl (σ : State) : σ.Aside σ := ⟨rfl, .refl _ _, rfl, rfl, rfl, rfl, .rfl⟩

theorem Aside.setPeer {p : Peer} (h : σ.peer.Aside σ.device p) : σ.Aside (σ.setPeer p) :=
  ⟨rfl, h, rfl, rfl, rfl, rfl, .rfl⟩

theorem requestStep_cases {queueLimit : Nat} {r : Request}
    (h : σ.requestStep queueLimit r = some τ) : σ.RequestMove queueLimit τ := by
  cases r with
  | enqueue frame =>
    cases h
    unfold enqueueStep
    split
    · rename_i p s hp hs
      obtain ⟨hopen, hest, -, -, rfl⟩ := Peer.wgTcpEnqueueFrame_ok hp
      exact .accept frame s hopen hest hs
    · exact .aside (.refl σ)
  | dial =>
    obtain ⟨-, ⟨⟩⟩ := Option.ite_none_left_eq_some.mp h
    exact .aside (.setPeer (Peer.requestDial_aside _ _))
  | reconnect =>
    obtain ⟨-, ⟨⟩⟩ := Option.ite_none_left_eq_some.mp h
    exact .aside (.setPeer (Peer.reconnect_aside _ _))
  | authenticated connectionId =>
    obtain ⟨htemp, ⟨⟩⟩ := Option.ite_none_left_eq_some.mp h
    exact .aside (.setPeer (Peer.requestPromotion_aside _ (by simpa using htemp) _))
  | setEndpoint ep configured =>
    obtain ⟨-, ⟨⟩⟩ := Option.ite_none_left_eq_some.mp h
    exact .aside (.setPeer (Peer.addressing_aside _ _ _ (setPeerEndpoint_set _ _ _ _ _ _)))
  | learn ep connectionId =>
    obtain ⟨-, ⟨⟩⟩ := Option.ite_none_left_eq_some.mp h
    exact .aside (.setPeer (Peer.addressing_aside _ _ _ (learnDialTarget_set _ _ _)))
  | connect =>
    obtain ⟨-, ⟨⟩⟩ := Option.ite_none_left_eq_some.mp h
    exact .aside ⟨rfl, .refl _ _, rfl, rfl, rfl, rfl, .rfl⟩

/-! ## Threads -/

/-- The steps of the threads outside the lock. -/
inductive ThreadStep (σ : State) : State → Prop where
  | retryBegin (idle : σ.retry = none) (work : σ.peer.retry.work = true) :
      ThreadStep σ { σ.setPeer (σ.peer.takeRetryWork.beginRetry σ.device).2 with
        retry := if (σ.peer.takeRetryWork.beginRetry σ.device).1 then some .wait else none }
  | dialRefused (caller : Caller) (pc : σ.caller caller = some .wait)
      (transport : σ.device.transport ≠ .tcp) : ThreadStep σ (σ.setCaller caller (some .failed))
  | dialLock (caller : Caller) (pc : σ.caller caller = some .wait) (free : σ.lock = none) :
      ThreadStep σ ((σ.setCaller caller (some .inside)).hold (.connectGate caller))
  | dialGreet (caller : Caller) (s : SockId) (pc : σ.caller caller = some (.greet s)) :
      ThreadStep σ ((σ.setPeer (σ.peer.wgTcpQueueCarrierBootstrap s)).setCaller caller none)
  | dialGiveUp (pc : σ.admin = some .failed) : ThreadStep σ (σ.setCaller .admin none)
  | dialAgain (caller : Caller) (pc : σ.caller caller = some .failed) (other : caller ≠ .admin) :
      ThreadStep σ ((σ.setPeer σ.peer.scheduleRetry).setCaller caller none)
  | outboundTake (idle : σ.outbound = .idle) (work : σ.peer.outboundRemove.work = true) :
      ThreadStep σ { σ.setPeer σ.peer.takeOutboundWork with
        outbound := .cancelRetry (σ.peer.retry.scheduled || σ.peer.retry.work) }
  | outboundCancel (retryNeeded : Bool) (pc : σ.outbound = .cancelRetry retryNeeded)
      (retry : σ.retry = none) :
      ThreadStep σ { σ.setPeer σ.peer.takeRetryWork with outbound := .wait retryNeeded }
  | outboundLock (retryNeeded : Bool) (pc : σ.outbound = .wait retryNeeded) (free : σ.lock = none) :
      ThreadStep σ { σ.hold (.outboundView retryNeeded) with outbound := .inside }
  | outboundPost (post : OutboundPost) (pc : σ.outbound = .post post) :
      ThreadStep σ (σ.outboundPostStep post)
  | inboundDead (idle : σ.inbound = .idle) (work : σ.peer.inboundRemove.work = true)
      (temp : σ.peer.tempPeer = true) :
      ThreadStep σ (σ.setPeer { σ.peer.takeInboundWork with isDead := true })
  | inboundTake (idle : σ.inbound = .idle) (work : σ.peer.inboundRemove.work = true) :
      ThreadStep σ { σ.setPeer σ.peer.takeInboundWork with inbound := .wait }
  | inboundLock (pc : σ.inbound = .wait) (free : σ.lock = none) :
      ThreadStep σ { σ.hold .inboundView with inbound := .inside }
  | bootstrapTake (idle : σ.bootstrap = .idle) (work : σ.peer.tcpBootstrapWork = true) :
      ThreadStep σ { σ.setPeer σ.peer.takeBootstrapWork with bootstrap := .wait }
  | bootstrapLock (pc : σ.bootstrap = .wait) (free : σ.lock = none) :
      ThreadStep σ { σ.hold .bootstrapTake with bootstrap := .inside }
  | promotionStart (idle : σ.promotion = .idle) (work : σ.peer.promotion.work = true) :
      ThreadStep σ { σ.setPeer σ.peer.takePromotionWork with promotion := .take }
  | promotionTake (pc : σ.promotion = .take) :
      ThreadStep σ { σ.setPeer σ.peer.takePromotion with
        promotion :=
          if σ.peer.tcpPromotionConnectionId = 0 then .idle
          else .claim σ.peer.tcpPromotionConnectionId }
  | promotionSkip (connectionId : Nat) (pc : σ.promotion = .claim connectionId) :
      ThreadStep σ { σ with promotion := .take }
  | promotionClaim (connectionId : Nat) (s : SockId) (pc : σ.promotion = .claim connectionId)
      (stage : (σ.socks s).stage = .provisional connectionId) :
      ThreadStep σ { σ.setSock s { σ.socks s with stage := .promoting } with
        promotion := .wait s connectionId }
  | promotionLock (s : SockId) (connectionId : Nat) (pc : σ.promotion = .wait s connectionId)
      (free : σ.lock = none) :
      ThreadStep σ { σ.hold (.promoteCheck s connectionId) with promotion := .inside }
  | stopBegin (pc : σ.stop = .idle ∨ σ.stop = .begin ∨ σ.stop = .done) :
      ThreadStep σ
        { σ.setPeer (if σ.peer.tempPeer then σ.peer.destroyClaim else σ.peer.stopClaim) with
          stop := .cancelRetry }
  | stopRetry (pc : σ.stop = .cancelRetry) (retry : σ.retry = none) :
      ThreadStep σ { σ.setPeer σ.peer.takeRetryWork with stop := .cancelOutbound }
  | stopOutbound (pc : σ.stop = .cancelOutbound) (outbound : σ.outbound = .idle) :
      ThreadStep σ { σ.setPeer σ.peer.takeOutboundWork with stop := .cancelInbound }
  | stopInbound (pc : σ.stop = .cancelInbound) (inbound : σ.inbound = .idle) :
      ThreadStep σ { σ.setPeer σ.peer.takeInboundWork with
        stop := if σ.peer.tempPeer then .wait else .cancelBootstrap }
  | stopBootstrap (pc : σ.stop = .cancelBootstrap) (bootstrap : σ.bootstrap = .idle) :
      ThreadStep σ { σ.setPeer σ.peer.takeBootstrapWork with stop := .cancelPromotion }
  | stopPromotion (pc : σ.stop = .cancelPromotion) (promotion : σ.promotion = .idle) :
      ThreadStep σ { σ.setPeer σ.peer.takePromotionWork with stop := .wait }
  | stopLock (pc : σ.stop = .wait) (free : σ.lock = none) :
      ThreadStep σ { σ.hold (if σ.peer.tempPeer then
          .drain σ.peer.links.inboundSocket.toList (.destroy σ.peer.links.inboundSocket) true
        else .stopReclaim) with stop := .inside }
  | stopFinish (pc : σ.stop = .finish false) :
      ThreadStep σ { σ.setPeer (σ.peer.stopFinish false) with stop := .done }

theorem dialStep_cases {caller : Caller} {pc : DialPc} (hpc : σ.caller caller = some pc)
    (h : σ.dialStep caller pc = some τ) : σ.ThreadStep τ := by
  cases pc with
  | wait =>
    simp only [dialStep] at h
    split at h
    · cases h
      exact .dialRefused caller hpc ‹_›
    · obtain ⟨hfree, ⟨⟩⟩ := Option.ite_none_right_eq_some.mp h
      exact .dialLock caller hpc hfree
  | inside => cases h
  | greet s =>
    cases h
    exact .dialGreet caller s hpc
  | failed =>
    cases h
    cases caller with
    | admin => exact .dialGiveUp hpc
    | retry => exact .dialAgain .retry hpc (by simp)
    | outbound => exact .dialAgain .outbound hpc (by simp)

theorem stopStepOutside_cases (hc : σ.Control) (h : σ.stopStepOutside = some τ) :
    σ.ThreadStep τ := by
  unfold stopStepOutside at h
  split at h
  · cases h
    exact .stopBegin (.inl ‹_›)
  · cases h
    exact .stopBegin (.inr (.inl ‹_›))
  · cases h
    exact .stopBegin (.inr (.inr ‹_›))
  · obtain ⟨hidle, ⟨⟩⟩ := Option.ite_none_right_eq_some.mp h
    exact .stopRetry ‹_› hidle
  · obtain ⟨hidle, ⟨⟩⟩ := Option.ite_none_right_eq_some.mp h
    exact .stopOutbound ‹_› hidle
  · obtain ⟨hidle, ⟨⟩⟩ := Option.ite_none_right_eq_some.mp h
    exact .stopInbound ‹_› hidle
  · obtain ⟨hidle, ⟨⟩⟩ := Option.ite_none_right_eq_some.mp h
    exact .stopBootstrap ‹_› hidle
  · obtain ⟨hidle, ⟨⟩⟩ := Option.ite_none_right_eq_some.mp h
    exact .stopPromotion ‹_› hidle
  · obtain ⟨hfree, ⟨⟩⟩ := Option.ite_none_right_eq_some.mp h
    exact .stopLock ‹_› hfree
  · cases h
  · rename_i failed hpc
    cases h
    obtain rfl := hc.stop.finish failed hpc
    exact .stopFinish hpc

theorem promotionStep_cases {choice : Choice} (h : σ.promotionStep choice = some τ) :
    σ.ThreadStep τ := by
  unfold promotionStep at h
  split at h
  · obtain ⟨hwork, ⟨⟩⟩ := Option.ite_none_right_eq_some.mp h
    exact .promotionStart ‹_› hwork
  · cases h
    exact .promotionTake ‹_›
  · simp only at h
    split at h
    · cases h
      exact .promotionSkip _ ‹_›
    · obtain ⟨hstage, ⟨⟩⟩ := Option.ite_none_right_eq_some.mp h
      exact .promotionClaim _ _ ‹_› hstage
  · obtain ⟨hfree, ⟨⟩⟩ := Option.ite_none_right_eq_some.mp h
    exact .promotionLock _ _ ‹_› hfree
  · cases h

theorem threadStep_steps {choice : Choice} {t : Thread} (hc : σ.Control)
    (h : σ.threadStep choice t = some τ) : σ.ThreadStep τ := by
  cases t with
  | retry =>
    replace h : σ.retryStep = some τ := h
    unfold retryStep at h
    split at h
    · obtain ⟨hwork, ⟨⟩⟩ := Option.ite_none_right_eq_some.mp h
      exact .retryBegin ‹_› hwork
    · exact dialStep_cases (show σ.caller .retry = _ from ‹_›) h
  | admin =>
    obtain ⟨pc, hpc, h⟩ := Option.bind_eq_some_iff.mp h
    exact dialStep_cases (show σ.caller .admin = _ from hpc) h
  | outbound =>
    replace h : σ.outboundStep = some τ := h
    unfold outboundStep at h
    split at h
    · obtain ⟨hwork, ⟨⟩⟩ := Option.ite_none_right_eq_some.mp h
      exact .outboundTake ‹_› hwork
    · obtain ⟨hretry, ⟨⟩⟩ := Option.ite_none_right_eq_some.mp h
      exact .outboundCancel _ ‹_› hretry
    · obtain ⟨hfree, ⟨⟩⟩ := Option.ite_none_right_eq_some.mp h
      exact .outboundLock _ ‹_› hfree
    · cases h
    · cases h
      exact .outboundPost _ ‹_›
    · exact dialStep_cases (caller_outbound_eq_some.mpr ‹_›) h
  | inbound =>
    replace h : σ.inboundStep = some τ := h
    unfold inboundStep at h
    split at h
    · obtain ⟨hwork, h⟩ := Option.ite_none_right_eq_some.mp h
      split at h
      · cases h
        exact .inboundDead ‹_› hwork ‹_›
      · cases h
        exact .inboundTake ‹_› hwork
    · obtain ⟨hfree, ⟨⟩⟩ := Option.ite_none_right_eq_some.mp h
      exact .inboundLock ‹_› hfree
    · cases h
  | bootstrap =>
    replace h : σ.bootstrapStep = some τ := h
    unfold bootstrapStep at h
    split at h
    · obtain ⟨hwork, ⟨⟩⟩ := Option.ite_none_right_eq_some.mp h
      exact .bootstrapTake ‹_› hwork
    · obtain ⟨hfree, ⟨⟩⟩ := Option.ite_none_right_eq_some.mp h
      exact .bootstrapLock ‹_› hfree
    · cases h
  | promotion => exact promotionStep_cases h
  | stop => exact stopStepOutside_cases hc h

/-- The same steps, by what they mean to the stream. -/
inductive ThreadMove (σ : State) : State → Prop where
  | aside {τ : State} (aside : σ.Aside τ) : ThreadMove σ τ
  /-- The removal work of a provisional peer. -/
  | dead (temp : σ.peer.tempPeer = true) :
      ThreadMove σ (σ.setPeer { σ.peer.takeInboundWork with isDead := true })
  | acquire {τ : State} (k : Holder) (entry : k.entry = true) (free : σ.lock = none)
      (lock : τ.lock = some k) (device : τ.device = σ.device) (peer : τ.peer = σ.peer)
      (socks : τ.socks = σ.socks) (reader : τ.reader = σ.reader)
      (writer : τ.writer = σ.writer) (done : τ.stop = .done ↔ σ.stop = .done) : ThreadMove σ τ
  | promotionClaim (s : SockId) (connectionId : Nat)
      (stage : (σ.socks s).stage = .provisional connectionId) (pc : PromotionPc) :
      ThreadMove σ { σ.setSock s { σ.socks s with stage := .promoting } with promotion := pc }
  | stopBegin :
      ThreadMove σ
        { σ.setPeer (if σ.peer.tempPeer then σ.peer.destroyClaim else σ.peer.stopClaim) with
          stop := .cancelRetry }
  | stopFinish (stopping : σ.peer.tcpStopping = true) (pc : σ.stop = .finish false) :
      ThreadMove σ { σ.setPeer (σ.peer.stopFinish false) with stop := .done }

theorem setCaller_aside {p : Peer} (hp : σ.peer.Aside σ.device p) (caller : Caller)
    (pc : Option DialPc) : σ.Aside ((σ.setPeer p).setCaller caller pc) := by
  cases caller <;> exact ⟨rfl, hp, rfl, rfl, rfl, rfl, .rfl⟩

theorem outboundPostStep_aside (σ : State) (post : OutboundPost) :
    σ.Aside (σ.outboundPostStep post) := by
  have keep := Peer.Aside.refl σ.device σ.peer
  unfold outboundPostStep
  split
  · exact ⟨rfl, keep, rfl, rfl, rfl, rfl, .rfl⟩
  split
  · exact ⟨rfl, Peer.reconnect_aside _ _, rfl, rfl, rfl, rfl, .rfl⟩
  split
  · exact ⟨rfl, keep, rfl, rfl, rfl, rfl, .rfl⟩
  split
  · exact ⟨rfl, Peer.scheduleRetry_aside _ _, rfl, rfl, rfl, rfl, .rfl⟩
  · exact ⟨rfl, keep, rfl, rfl, rfl, rfl, .rfl⟩

theorem ThreadStep.move (hc : σ.Control) (h : σ.ThreadStep τ) : σ.ThreadMove τ := by
  have keep := Peer.Aside.refl σ.device σ.peer
  cases h with
  | retryBegin =>
    exact .aside ⟨rfl, (Peer.takeRetryWork_aside _ _).trans (Peer.beginRetry_aside _ _), rfl, rfl,
      rfl, rfl, .rfl⟩
  | dialRefused caller => exact .aside (setCaller_aside keep caller _)
  | dialLock caller pc free =>
    exact .acquire (.connectGate caller) rfl free rfl (setCaller_device _ _ _)
      (setCaller_peer _ _ _) (setCaller_socks _ _ _) (setCaller_reader _ _ _)
      (setCaller_writer _ _ _) (by simp)
  | dialGreet caller s =>
    exact .aside (setCaller_aside (Peer.wgTcpQueueCarrierBootstrap_aside _ _ s) caller _)
  | dialGiveUp => exact .aside (setCaller_aside keep .admin _)
  | dialAgain caller => exact .aside (setCaller_aside (Peer.scheduleRetry_aside _ _) caller _)
  | outboundTake => exact .aside ⟨rfl, Peer.takeOutboundWork_aside _ _, rfl, rfl, rfl, rfl, .rfl⟩
  | outboundCancel => exact .aside ⟨rfl, Peer.takeRetryWork_aside _ _, rfl, rfl, rfl, rfl, .rfl⟩
  | outboundLock retryNeeded pc free =>
    exact .acquire (.outboundView retryNeeded) rfl free rfl rfl rfl rfl rfl rfl .rfl
  | outboundPost post => exact .aside (outboundPostStep_aside σ post)
  | inboundDead idle work temp => exact .dead temp
  | inboundTake => exact .aside ⟨rfl, Peer.takeInboundWork_aside _ _, rfl, rfl, rfl, rfl, .rfl⟩
  | inboundLock pc free => exact .acquire .inboundView rfl free rfl rfl rfl rfl rfl rfl .rfl
  | bootstrapTake => exact .aside ⟨rfl, Peer.takeBootstrapWork_aside _ _, rfl, rfl, rfl, rfl, .rfl⟩
  | bootstrapLock pc free => exact .acquire .bootstrapTake rfl free rfl rfl rfl rfl rfl rfl .rfl
  | promotionStart => exact .aside ⟨rfl, Peer.takePromotionWork_aside _ _, rfl, rfl, rfl, rfl, .rfl⟩
  | promotionTake => exact .aside ⟨rfl, Peer.takePromotion_aside _ _, rfl, rfl, rfl, rfl, .rfl⟩
  | promotionSkip => exact .aside ⟨rfl, keep, rfl, rfl, rfl, rfl, .rfl⟩
  | promotionClaim connectionId s pc stage => exact .promotionClaim s connectionId stage _
  | promotionLock s connectionId pc free =>
    exact .acquire (.promoteCheck s connectionId) rfl free rfl rfl rfl rfl rfl rfl .rfl
  | stopBegin => exact .stopBegin
  | stopRetry pc =>
    exact .aside ⟨rfl, Peer.takeRetryWork_aside _ _, rfl, rfl, rfl, rfl, by simp [pc]⟩
  | stopOutbound pc =>
    exact .aside ⟨rfl, Peer.takeOutboundWork_aside _ _, rfl, rfl, rfl, rfl, by simp [pc]⟩
  | stopInbound pc =>
    refine .aside ⟨rfl, Peer.takeInboundWork_aside _ _, rfl, rfl, rfl, rfl, ?_⟩
    rw [pc]
    dsimp only
    split <;> simp
  | stopBootstrap pc =>
    exact .aside ⟨rfl, Peer.takeBootstrapWork_aside _ _, rfl, rfl, rfl, rfl, by simp [pc]⟩
  | stopPromotion pc =>
    exact .aside ⟨rfl, Peer.takePromotionWork_aside _ _, rfl, rfl, rfl, rfl, by simp [pc]⟩
  | stopLock pc free =>
    refine .acquire _ ?_ free rfl rfl rfl rfl rfl rfl (by simp [pc])
    split <;> rfl
  | stopFinish pc => exact .stopFinish (hc.stop.stopping (by simp [pc, StopPc.rank])) pc

theorem threadStep_cases {choice : Choice} {t : Thread} (hc : σ.Control)
    (h : σ.threadStep choice t = some τ) : σ.ThreadMove τ :=
  (threadStep_steps hc h).move hc

/-! ## Device and peer lifetime -/

inductive LifecycleMove (σ : State) : State → Prop where
  | deviceDown :
      LifecycleMove σ { σ with
        device := { σ.device with tcpCleanupScheduled := false, netifRunning := false } }
  | deviceUp (done : σ.stop = .done) (temp : σ.peer.tempPeer = false)
      (links : σ.peer.links = .none) :
      LifecycleMove σ { σ.setPeer σ.peer.wgOpen with
        device := { σ.device with tcpCleanupScheduled := true, netifRunning := true }
        stop := .idle }
  | removePeer (links : σ.peer.links = .none) : LifecycleMove σ (σ.setPeer σ.peer.peerMakeDead)
  | install (s : SockId) (connectionId : Nat)
      (stage : (σ.socks s).stage = .provisional connectionId) (temp : σ.peer.tempPeer = true)
      (free : σ.lock = none) (links : σ.peer.links = .none) (live : σ.peer.isDead = false) :
      LifecycleMove σ
        (((σ.setPeer (σ.peer.install s)).setSock s { σ.socks s with stage := .owned }).hold
          (.installSetup s))
  | handover (s : SockId) (free : σ.lock = none) : LifecycleMove σ (σ.hold (.handoverClaim s))

theorem lifecycleStep_cases {l : Lifecycle} (hc : σ.Control) (h : σ.lifecycleStep l = some τ) :
    σ.LifecycleMove τ := by
  have stopped (hpc : σ.stop = .done) (htemp : σ.peer.tempPeer = false) : σ.peer.links = .none :=
    (hc.stop.stopped htemp (by simp [hpc, StopPc.rank])).1
  cases l with
  | deviceDown =>
    cases h
    exact .deviceDown
  | deviceUp =>
    obtain ⟨⟨hpc, -, -, htemp⟩, ⟨⟩⟩ := Option.ite_none_right_eq_some.mp h
    rw [if_neg (by simp [hc.custody.quarantined])]
    exact .deviceUp hpc htemp (stopped hpc htemp)
  | removePeer =>
    obtain ⟨⟨hpc, htemp⟩, ⟨⟩⟩ := Option.ite_none_right_eq_some.mp h
    exact .removePeer (stopped hpc htemp)
  | install s =>
    simp only [lifecycleStep] at h
    split at h
    · rename_i connectionId hstage
      obtain ⟨⟨htemp, -, hfree, hnone, hlive⟩, ⟨⟩⟩ := Option.ite_none_right_eq_some.mp h
      exact .install s connectionId hstage htemp hfree hnone hlive
    · cases h
  | handover s =>
    obtain ⟨⟨-, hfree⟩, ⟨⟩⟩ := Option.ite_none_right_eq_some.mp h
    exact .handover s hfree

/-! ## Configured and provisional peers -/

theorem LockedMove.tempPeer {h : Holder} (hm : σ.LockedMove h τ) :
    τ.peer.tempPeer = σ.peer.tempPeer := by
  cases hm with
  | connectFinish caller s first p finish => exact (Peer.connectFinish_under finish).1.tempPeer
  | unwindQueue => exact (Peer.unwindQueue_under _).tempPeer
  | connectReturn => exact congrArg Peer.tempPeer (setCaller_peer _ _ _)
  | rearm => exact (Peer.rearm_outside _ _ _).tempPeer
  | installData => exact (Peer.wgTcpDataReady_outside _ _).tempPeer
  | installFinish => exact (Peer.finishInit_under _ _).tempPeer
  | clearFlags plan => exact (Peer.clear_under _ plan).tempPeer
  | _ => rfl

/-- The holder of the lock never brings a peer to life. -/
theorem LockedMove.live {h : Holder} (hm : σ.LockedMove h τ)
    (hlive : τ.peer.live τ.device = true) : σ.peer.live σ.device = true := by
  cases hm with
  | connectFinish caller s first p finish =>
    obtain ⟨hg, -⟩ := Option.ite_none_left_eq_some.mp finish
    simp_all
  | unwindQueue =>
    unfold Peer.unwindQueue at hlive
    split at hlive <;> exact hlive
  | connectReturn => simpa using hlive
  | rearm =>
    rw [Peer.rearm_eq] at hlive
    exact hlive
  | installData =>
    unfold Peer.wgTcpDataReady at hlive
    split at hlive <;> exact hlive
  | installFinish =>
    simp only [Peer.finishInit] at hlive
    split at hlive <;> simp_all [Peer.live]
  | handoverClaim => simp [Peer.live] at hlive
  | clearFlags plan => cases plan <;> exact hlive
  | _ => exact hlive

/-- A peer stays what it was created as. -/
theorem step_tempPeer {A : SkbAllocator} {queueLimit : Nat} {a : Action} (hc : σ.Control)
    (h : σ.step A queueLimit a = some τ) : τ.peer.tempPeer = σ.peer.tempPeer := by
  cases a with
  | kernel e =>
    obtain ⟨sk, -, rfl⟩ := Option.map_eq_some_iff.mp h
    rfl
  | callback s => exact (callbackStep_cases h).outside.tempPeer
  | read choice =>
    cases readStep_cases h with
    | finish => exact (Peer.finishReader_outside _ _ _ _ _).tempPeer
    | _ => rfl
  | write choice =>
    cases writeStep_cases h with
    | dequeue s =>
      unfold writeDequeue
      split <;> rfl
    | fail => exact (Peer.wgTcpFailExactSocket_outside _ _ _).tempPeer
    | finish => exact (Peer.finishWriter_outside _ _ _ _).tempPeer
    | _ => rfl
  | request r =>
    cases requestStep_cases h with
    | accept => exact (Peer.wgTcpScheduleWriteLocked_outside _ _).tempPeer
    | aside aside => exact aside.peer.tempPeer
  | thread t choice =>
    cases threadStep_cases hc h with
    | aside aside => exact aside.peer.tempPeer
    | acquire k entry free lock device peer => rw [peer]
    | stopBegin =>
      dsimp only
      split <;> rfl
    | _ => rfl
  | locked choice =>
    obtain ⟨k, hk, h⟩ := Option.bind_eq_some_iff.mp h
    exact (lockedStep_cases hc hk h).tempPeer
  | lifecycle l =>
    cases lifecycleStep_cases hc h with
    | deviceUp =>
      unfold Peer.wgOpen
      split <;> rfl
    | _ => rfl

end State

end WgTcp
