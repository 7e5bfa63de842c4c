import WgTcp.Peer.Claims
import WgTcp.Peer.Flags

/-!
# Requests for a promotion

An authenticated packet on a provisional carrier asks for its promotion: it
leaves the carrier's id with the peer, and queues `tcp_promotion_work` unless
`tcp_promotion_worker_scheduled` says that the worker will come by anyway. The
worker clears that flag only when it finds no id. A stop cancels the work and
leaves the flag alone.

`promotion_requests_kept` is about the runs in which no stop meets pending
work; `promotion_requests_kept_fails` shows that the others leave a peer that
never promotes again.
-/

namespace WgTcp

/-! ## Sections that have nothing to do with it -/

namespace Peer

/-- What authenticated packets and the configuration have left with the peer:
`tcp_promotion_connection_id` with `tcp_promotion_worker_scheduled` and `tcp_promotion_work`, and
the fields under `endpoint_lock`. -/
def requests (p : Peer) : (Nat × WorkItem) × Addressing :=
  ((p.tcpPromotionConnectionId, p.promotion), p.addressing)

section

variable (d : Device) (p : Peer) (s : SockId)

theorem wgTcpScheduleWriteLocked_requests :
    (wgTcpScheduleWriteLocked d p).requests = p.requests := by
  rw [wgTcpScheduleWriteLocked_eq]
  rfl

theorem wgTcpFailExactSocket_requests :
    (p.wgTcpFailExactSocket d s).requests = p.requests := by
  unfold wgTcpFailExactSocket
  repeat' split
  all_goals rfl

theorem stateChangeSection_requests (inbound : Bool) (skState : TcpState) :
    (p.stateChangeSection s inbound skState).1.requests = p.requests := by
  unfold stateChangeSection stateEstablished wgTcpPublishOutboundEstablishedLocked
    stateClosedInbound stateClosedOutbound
  repeat' split
  all_goals rfl

theorem queueRemoval_requests (inbound : Bool) :
    (p.queueRemoval d s inbound).requests = p.requests := by
  unfold queueRemoval
  repeat' split
  all_goals rfl

theorem wgTcpQueueCarrierBootstrap_requests :
    (p.wgTcpQueueCarrierBootstrap s).requests = p.requests := by
  unfold wgTcpQueueCarrierBootstrap
  split <;> rfl

theorem reconnect_requests :
    (p.wgTcpPeerRequestReconnectAfter d).requests = p.requests := by
  unfold wgTcpPeerRequestReconnectAfter
  split <;> rfl

theorem beginRetry_requests :
    (p.beginRetry d).2.requests = p.requests := by
  unfold beginRetry
  repeat' split
  all_goals rfl

theorem scheduleRetry_requests : p.scheduleRetry.requests = p.requests := by
  unfold scheduleRetry
  split <;> rfl

end

end Peer

namespace State

variable {σ τ : State} {h k : Holder}

/-! ## What can happen to a request -/

/-- A step that leaves them alone. -/
structure Unasked (σ τ : State) : Prop where
  request : τ.peer.requests = σ.peer.requests
  idle : τ.promotion = .idle ↔ σ.promotion = .idle

/-- What a step does to the requests of a peer. -/
inductive PromotionMove (σ : State) : Action → State → Prop where
  | unasked {a : Action} {τ : State} (unasked : σ.Unasked τ) : PromotionMove σ a τ
  | setEndpoint (ep : Endpoint) (configured : Bool) :
      PromotionMove σ (.request (.setEndpoint ep configured))
        (σ.setPeer { σ.peer with
          addressing := (wgSocketSetPeerEndpointInternal σ.device.transport
            σ.device.netifRunning σ.peer.conn.established σ.peer.addressing ep configured).1 })
  | learn (ep : Endpoint) (connectionId : Nat) :
      PromotionMove σ (.request (.learn ep connectionId))
        (σ.setPeer { σ.peer with
          addressing := (learnDialTarget σ.peer.addressing ep connectionId).1 })
  /-- A promotion passes its generation check. -/
  | generation (choice : Choice) (s : SockId) (connectionId : Nat)
      (holds : σ.lock = some (.promoteCheck s connectionId))
      (newer : σ.peer.addressing.tcpRoamingConnectionId ≤ connectionId) :
      PromotionMove σ (.locked choice)
        ((σ.setPeer { σ.peer with addressing := { σ.peer.addressing with
          tcpRoamingConnectionId := connectionId } }).hold (.promoteDetach s))
  | request (connectionId : Nat) :
      PromotionMove σ (.request (.authenticated connectionId))
        (σ.setPeer (σ.peer.requestPromotion connectionId))
  | start (choice : Choice) :
      PromotionMove σ (.thread .promotion choice)
        { σ.setPeer σ.peer.takePromotionWork with promotion := .take }
  | take (choice : Choice) :
      PromotionMove σ (.thread .promotion choice)
        { σ.setPeer σ.peer.takePromotion with
          promotion :=
            if σ.peer.tcpPromotionConnectionId = 0 then .idle
            else .claim σ.peer.tcpPromotionConnectionId }
  | cancel (choice : Choice) (pc : σ.stop = .cancelPromotion) :
      PromotionMove σ (.thread .stop choice)
        { σ.setPeer σ.peer.takePromotionWork with stop := .wait }

theorem callbackStep_unasked {s : SockId} (h : σ.callbackStep s = some τ) : σ.Unasked τ := by
  cases callbackStep_cases h with
  | dataReady =>
    refine ⟨?_, .rfl⟩
    dsimp only [endCallback, setSock_peer, setPeer_peer, Peer.wgTcpDataReady]
    split <;> rfl
  | writeSpace =>
    refine ⟨?_, .rfl⟩
    dsimp only [setSock_peer, setPeer_peer, Peer.wgTcpWriteSpace]
    split
    · rfl
    · exact Peer.wgTcpScheduleWriteLocked_requests _ _
  | stateSection inbound => exact ⟨Peer.stateChangeSection_requests _ _ inbound _, .rfl⟩
  | tailBootstrap => exact ⟨Peer.wgTcpQueueCarrierBootstrap_requests _ _, .rfl⟩
  | tailRemoval inbound => exact ⟨Peer.queueRemoval_requests _ _ _ inbound, .rfl⟩
  | _ => exact ⟨rfl, .rfl⟩

theorem readStep_unasked {A : SkbAllocator} {choice : ReadChoice}
    (h : σ.readStep A choice = some τ) : σ.Unasked τ := by
  cases readStep_cases h with
  | finish captured budgetExhausted =>
    refine ⟨?_, .rfl⟩
    dsimp only [readFinish, setPeer_peer, Peer.finishReader]
    split <;> rfl
  | _ => exact ⟨rfl, .rfl⟩

theorem writeStep_unasked {choice : SendChoice} (h : σ.writeStep choice = some τ) :
    σ.Unasked τ := by
  cases writeStep_cases h with
  | dequeue s =>
    unfold writeDequeue
    split <;> exact ⟨rfl, .rfl⟩
  | fail s => exact ⟨Peer.wgTcpFailExactSocket_requests _ _ _, .rfl⟩
  | finish captured =>
    refine ⟨?_, .rfl⟩
    dsimp only [writeFinish, setPeer_peer, Peer.finishWriter]
    split <;> rfl
  | _ => exact ⟨rfl, .rfl⟩

theorem requestStep_promotionMove {queueLimit : Nat} {r : Request}
    (h : σ.requestStep queueLimit r = some τ) : σ.PromotionMove (.request r) τ := by
  cases r with
  | enqueue frame =>
    cases h
    unfold enqueueStep
    split
    · rename_i hp hs
      obtain ⟨-, -, -, -, rfl⟩ := Peer.wgTcpEnqueueFrame_ok hp
      exact .unasked ⟨Peer.wgTcpScheduleWriteLocked_requests _ _, .rfl⟩
    · exact .unasked ⟨rfl, .rfl⟩
  | dial =>
    obtain ⟨-, ⟨⟩⟩ := Option.ite_none_left_eq_some.mp h
    refine .unasked ⟨?_, .rfl⟩
    dsimp only [setPeer_peer, Peer.requestDial]
    split <;> rfl
  | reconnect =>
    obtain ⟨-, ⟨⟩⟩ := Option.ite_none_left_eq_some.mp h
    exact .unasked ⟨Peer.reconnect_requests _ _, .rfl⟩
  | authenticated connectionId =>
    obtain ⟨-, ⟨⟩⟩ := Option.ite_none_left_eq_some.mp h
    exact .request connectionId
  | setEndpoint ep configured =>
    obtain ⟨-, ⟨⟩⟩ := Option.ite_none_left_eq_some.mp h
    exact .setEndpoint ep configured
  | learn ep connectionId =>
    obtain ⟨-, ⟨⟩⟩ := Option.ite_none_left_eq_some.mp h
    exact .learn ep connectionId
  | connect =>
    obtain ⟨-, ⟨⟩⟩ := Option.ite_none_left_eq_some.mp h
    exact .unasked ⟨rfl, .rfl⟩

theorem LockedMove.unasked (hm : σ.LockedMove h τ) (hl : σ.lock = some h) (hc : σ.Control)
    (hother : ∀ s connectionId, h ≠ .promoteCheck s connectionId) : σ.Unasked τ := by
  cases hm with
  | promoteCheck s connectionId => exact absurd rfl (hother s connectionId)
  | connectFinish caller s first p finish =>
    obtain ⟨-, -, conn, -, rfl⟩ := Peer.connectFinish_some (hc.holder _ hl).1.1 finish
    exact ⟨rfl, .rfl⟩
  | unwindQueue =>
    rw [Peer.unwindQueue_eq]
    exact ⟨rfl, .rfl⟩
  | connectReturn caller => cases caller <;> exact ⟨rfl, .rfl⟩
  | rearm =>
    rw [Peer.rearm_eq]
    exact ⟨rfl, .rfl⟩
  | promoteUnlock =>
    have hpc : σ.promotion = .inside := (hc.holder _ hl).2
    exact ⟨rfl, by simp [hpc]⟩
  | installData =>
    refine ⟨?_, .rfl⟩
    dsimp only [hold_peer, setPeer_peer, Peer.wgTcpDataReady]
    split <;> rfl
  | installFinish =>
    refine ⟨?_, .rfl⟩
    dsimp only [setPeer_peer, Peer.finishInit]
    split <;> rfl
  | clearFlags plan => cases plan <;> exact ⟨rfl, .rfl⟩
  | _ => exact ⟨rfl, .rfl⟩

theorem outboundPostStep_unasked (σ : State) (post : OutboundPost) :
    σ.Unasked (σ.outboundPostStep post) := by
  unfold outboundPostStep
  split
  · exact ⟨rfl, .rfl⟩
  split
  · exact ⟨Peer.reconnect_requests _ _, .rfl⟩
  split
  · exact ⟨rfl, .rfl⟩
  split
  · exact ⟨Peer.scheduleRetry_requests _, .rfl⟩
  · exact ⟨rfl, .rfl⟩

theorem threadStep_promotionMove {choice : Choice} {t : Thread}
    (h : σ.threadStep choice t = some τ) : σ.PromotionMove (.thread t choice) τ := by
  have dialed {caller : Caller} {pc : DialPc} (h : σ.dialStep caller pc = some τ) :
      σ.Unasked τ := by
    cases pc with
    | wait =>
      simp only [dialStep] at h
      split at h
      · cases h
        cases caller <;> exact ⟨rfl, .rfl⟩
      · obtain ⟨-, ⟨⟩⟩ := Option.ite_none_right_eq_some.mp h
        cases caller <;> exact ⟨rfl, .rfl⟩
    | inside => cases h
    | greet s =>
      cases h
      cases caller <;> exact ⟨Peer.wgTcpQueueCarrierBootstrap_requests _ _, .rfl⟩
    | failed =>
      cases h
      cases caller with
      | admin => exact ⟨rfl, .rfl⟩
      | _ => exact ⟨Peer.scheduleRetry_requests _, .rfl⟩
  cases t with
  | retry =>
    replace h : σ.retryStep = some τ := h
    unfold retryStep at h
    split at h
    · obtain ⟨-, ⟨⟩⟩ := Option.ite_none_right_eq_some.mp h
      exact .unasked ⟨Peer.beginRetry_requests _ _, .rfl⟩
    · exact .unasked (dialed h)
  | admin =>
    obtain ⟨pc, -, h⟩ := Option.bind_eq_some_iff.mp h
    exact .unasked (dialed h)
  | outbound =>
    replace h : σ.outboundStep = some τ := h
    unfold outboundStep at h
    split at h
    · obtain ⟨-, ⟨⟩⟩ := Option.ite_none_right_eq_some.mp h
      exact .unasked ⟨rfl, .rfl⟩
    · obtain ⟨-, ⟨⟩⟩ := Option.ite_none_right_eq_some.mp h
      exact .unasked ⟨rfl, .rfl⟩
    · obtain ⟨-, ⟨⟩⟩ := Option.ite_none_right_eq_some.mp h
      exact .unasked ⟨rfl, .rfl⟩
    · cases h
    · cases h
      exact .unasked (outboundPostStep_unasked σ _)
    · exact .unasked (dialed h)
  | inbound =>
    replace h : σ.inboundStep = some τ := h
    unfold inboundStep at h
    split at h
    · obtain ⟨-, h⟩ := Option.ite_none_right_eq_some.mp h
      split at h <;> cases h <;> exact .unasked ⟨rfl, .rfl⟩
    · obtain ⟨-, ⟨⟩⟩ := Option.ite_none_right_eq_some.mp h
      exact .unasked ⟨rfl, .rfl⟩
    · cases h
  | bootstrap =>
    replace h : σ.bootstrapStep = some τ := h
    unfold bootstrapStep at h
    split at h
    · obtain ⟨-, ⟨⟩⟩ := Option.ite_none_right_eq_some.mp h
      exact .unasked ⟨rfl, .rfl⟩
    · obtain ⟨-, ⟨⟩⟩ := Option.ite_none_right_eq_some.mp h
      exact .unasked ⟨rfl, .rfl⟩
    · cases h
  | promotion =>
    replace h : σ.promotionStep choice = some τ := h
    unfold promotionStep at h
    split at h
    · obtain ⟨-, ⟨⟩⟩ := Option.ite_none_right_eq_some.mp h
      exact .start choice
    · cases h
      exact .take choice
    · rename_i hpc
      simp only at h
      split at h
      · cases h
        exact .unasked ⟨rfl, by simp [hpc]⟩
      · obtain ⟨-, ⟨⟩⟩ := Option.ite_none_right_eq_some.mp h
        exact .unasked ⟨rfl, by simp [hpc]⟩
    · rename_i hpc
      obtain ⟨-, ⟨⟩⟩ := Option.ite_none_right_eq_some.mp h
      exact .unasked ⟨rfl, by simp [hpc]⟩
    · cases h
  | stop =>
    replace h : σ.stopStepOutside = some τ := h
    have begun (q : Peer) (hq : q = if σ.peer.tempPeer then σ.peer.destroyClaim
        else σ.peer.stopClaim) : q.requests = σ.peer.requests := by
      rw [hq]
      split <;> rfl
    unfold stopStepOutside at h
    split at h
    · cases h
      exact .unasked ⟨begun _ rfl, .rfl⟩
    · cases h
      exact .unasked ⟨begun _ rfl, .rfl⟩
    · cases h
      exact .unasked ⟨begun _ rfl, .rfl⟩
    · obtain ⟨-, ⟨⟩⟩ := Option.ite_none_right_eq_some.mp h
      exact .unasked ⟨rfl, .rfl⟩
    · obtain ⟨-, ⟨⟩⟩ := Option.ite_none_right_eq_some.mp h
      exact .unasked ⟨rfl, .rfl⟩
    · obtain ⟨-, ⟨⟩⟩ := Option.ite_none_right_eq_some.mp h
      exact .unasked ⟨rfl, .rfl⟩
    · obtain ⟨-, ⟨⟩⟩ := Option.ite_none_right_eq_some.mp h
      exact .unasked ⟨rfl, .rfl⟩
    · rename_i hpc
      obtain ⟨-, ⟨⟩⟩ := Option.ite_none_right_eq_some.mp h
      exact .cancel choice hpc
    · obtain ⟨-, ⟨⟩⟩ := Option.ite_none_right_eq_some.mp h
      exact .unasked ⟨rfl, .rfl⟩
    · cases h
    · cases h
      refine .unasked ⟨?_, .rfl⟩
      dsimp only [setPeer_peer, Peer.stopFinish]
      split <;> rfl

theorem lockedStep_promotionMove {choice : Choice} (hc : σ.Control) (hl : σ.lock = some h)
    (hs : σ.lockedStep choice h = some τ) : σ.PromotionMove (.locked choice) τ := by
  by_cases hcheck : ∃ s connectionId, h = .promoteCheck s connectionId
  · obtain ⟨s, connectionId, rfl⟩ := hcheck
    replace hs : σ.promoteStep choice (.promoteCheck s connectionId) = some τ := hs
    unfold promoteStep Peer.promoteGeneration at hs
    by_cases hstale : connectionId < σ.peer.addressing.tcpRoamingConnectionId
    · simp only [if_pos hstale, Option.some.injEq] at hs
      subst hs
      exact .unasked ⟨rfl, .rfl⟩
    · simp only [if_neg hstale, Option.some.injEq] at hs
      subst hs
      exact .generation choice s connectionId hl (Nat.le_of_not_lt hstale)
  · refine .unasked ((lockedStep_cases hc hl hs).unasked hl hc fun s connectionId heq => ?_)
    exact hcheck ⟨s, connectionId, heq⟩

theorem step_promotionMove {A : SkbAllocator} {queueLimit : Nat} {a : Action} (hc : σ.Control)
    (h : σ.step A queueLimit a = some τ) : σ.PromotionMove a τ := by
  cases a with
  | kernel e =>
    obtain ⟨sk, -, rfl⟩ := Option.map_eq_some_iff.mp h
    exact .unasked ⟨rfl, .rfl⟩
  | callback s => exact .unasked (callbackStep_unasked h)
  | read choice => exact .unasked (readStep_unasked h)
  | write choice => exact .unasked (writeStep_unasked h)
  | request r => exact requestStep_promotionMove h
  | thread t choice => exact threadStep_promotionMove h
  | locked choice =>
    obtain ⟨k, hk, h⟩ := Option.bind_eq_some_iff.mp h
    exact lockedStep_promotionMove hc hk h
  | lifecycle l =>
    cases lifecycleStep_cases hc h with
    | deviceUp =>
      refine .unasked ⟨?_, .rfl⟩
      dsimp only [setPeer_peer, Peer.wgOpen]
      split <;> rfl
    | _ => exact .unasked ⟨rfl, .rfl⟩

/-! ## A request is served -/

/-- A stop does not find promotion work that is still pending. -/
def promotionDrained (σ : State) : Action → Bool
  | .thread .stop _ => !(decide (σ.stop = .cancelPromotion) && σ.peer.promotion.work)
  | _ => true

def PromotionDrained (σ : State) (a : Action) : Prop := σ.promotionDrained a = true

instance (σ : State) (a : Action) : Decidable (σ.PromotionDrained a) :=
  inferInstanceAs (Decidable (_ = _))

/-- `tcp_promotion_work` is pending or running. -/
def PromotionDue (σ : State) : Prop := σ.peer.promotion.work = true ∨ σ.promotion ≠ .idle

instance (σ : State) : Decidable σ.PromotionDue := inferInstanceAs (Decidable (_ ∨ _))

def PromotionBacked (σ : State) : Prop := σ.peer.promotion.scheduled = true → σ.PromotionDue

theorem Unasked.promotion (hu : σ.Unasked τ) : τ.peer.promotion = σ.peer.promotion :=
  congrArg (fun r => r.1.2) hu.request

theorem Unasked.connectionId (hu : σ.Unasked τ) :
    τ.peer.tcpPromotionConnectionId = σ.peer.tcpPromotionConnectionId :=
  congrArg (fun r => r.1.1) hu.request

theorem Unasked.addressing (hu : σ.Unasked τ) : τ.peer.addressing = σ.peer.addressing :=
  congrArg Prod.snd hu.request

theorem PromotionMove.backed {a : Action} (hm : σ.PromotionMove a τ) (hcond : σ.PromotionDrained a)
    (hi : σ.PromotionBacked) : τ.PromotionBacked := by
  intro hs
  cases hm with
  | unasked hu =>
    rw [hu.promotion] at hs
    rw [PromotionDue, hu.promotion, ne_eq, hu.idle]
    exact hi hs
  | request connectionId =>
    simp only [setPeer_peer, Peer.requestPromotion] at hs
    simp only [PromotionDue, setPeer_peer, Peer.requestPromotion]
    split at hs
    · split at hs
      · simp only [*, if_true]
        exact hi hs
      · simp [*, WorkItem.queued]
    · simp only [*, Bool.false_eq_true, if_false]
      exact hi hs
  | setEndpoint | learn | generation => exact hi hs
  | start => exact .inr (fun h => by cases h)
  | take =>
    simp only [setPeer_peer, Peer.takePromotion] at hs
    split at hs
    · cases hs
    · rename_i hid
      exact .inr (by simp [hid])
  | cancel choice pc =>
    have hwork : σ.peer.promotion.work = false := by
      simpa [PromotionDrained, promotionDrained, pc] using hcond
    rcases hi hs with hw | hpc
    · rw [hwork] at hw
      cases hw
    · exact .inr hpc

/-- The id that a peer is to promote was given to it by an authenticated packet. -/
def PromotionAsked (as : List Action) (σ : State) : Prop :=
  σ.peer.tcpPromotionConnectionId = 0 ∨
    Action.request (.authenticated σ.peer.tcpPromotionConnectionId) ∈ as

theorem PromotionMove.asked {as : List Action} {a : Action} (hm : σ.PromotionMove a τ)
    (hi : PromotionAsked as σ) : PromotionAsked (as ++ [a]) τ := by
  have old (hid : τ.peer.tcpPromotionConnectionId = σ.peer.tcpPromotionConnectionId) :
      PromotionAsked (as ++ [a]) τ := by
    rw [PromotionAsked, hid]
    exact hi.imp_right (List.mem_append_left [a])
  cases hm with
  | unasked hu => exact old hu.connectionId
  | request connectionId =>
    by_cases hg : (!σ.peer.isDead && !σ.peer.tcpStopping &&
        decide (σ.peer.tcpPromotionConnectionId < connectionId)) = true
    · have hid :
        (σ.peer.requestPromotion connectionId).tcpPromotionConnectionId = connectionId := by
        simp only [Peer.requestPromotion, if_pos hg]
      rw [PromotionAsked, setPeer_peer, hid]
      exact .inr (by simp)
    · exact old (by simp only [setPeer_peer, Peer.requestPromotion, if_neg hg])
  | take => exact .inl rfl
  | setEndpoint | learn | generation | start | cancel => exact old rfl

variable {A : SkbAllocator} {queueLimit : Nat} {addressing : Addressing} {as : List Action}

/-- No request for a promotion is lost: the flag is only set while the work is pending or running,
and an authenticated packet with an id above all earlier ones leaves its id with such work. -/
theorem promotion_requests_kept (h : Reaches A queueLimit false addressing as σ)
    (hcond : Transition.Meets (step A queueLimit) PromotionDrained (.init false addressing) as)
    (hlive : σ.peer.live σ.device = true) :
    (σ.peer.promotion.scheduled = true → σ.PromotionDue) ∧
    ∀ connectionId, 0 < connectionId →
      (∀ id, Action.request (.authenticated id) ∈ as → id < connectionId) →
      ∃ τ, σ.step A queueLimit (.request (.authenticated connectionId)) = some τ ∧
        τ.peer.tcpPromotionConnectionId = connectionId ∧ τ.PromotionDue := by
  obtain ⟨⟨hc, htemp⟩, hbacked, hasked⟩ := Transition.run_history
    (I := fun as σ => (σ.Control ∧ σ.peer.tempPeer = false) ∧ σ.PromotionBacked ∧
      PromotionAsked as σ)
    (fun bs r a r' _ hi hcond hstep => by
      have hm := step_promotionMove hi.1.1 hstep
      exact ⟨⟨step_control hi.1.1 hstep, (step_tempPeer hi.1.1 hstep).trans hi.1.2⟩,
        hm.backed hcond hi.2.1, hm.asked hi.2.2⟩)
    ⟨⟨control_init false addressing, rfl⟩, (fun h => by cases h), .inl rfl⟩ hcond h
  refine ⟨hbacked, fun connectionId hpos hnewer => ?_⟩
  have hlt : σ.peer.tcpPromotionConnectionId < connectionId := by
    rcases hasked with hid | hid
    · omega
    · exact hnewer _ hid
  refine ⟨σ.setPeer (σ.peer.requestPromotion connectionId), ?_, ?_, ?_⟩
  · simp [step, requestStep, htemp]
  · have hg : (!σ.peer.isDead && !σ.peer.tcpStopping &&
        decide (σ.peer.tcpPromotionConnectionId < connectionId)) = true := by
      simp_all [Peer.live]
    simp only [setPeer_peer, Peer.requestPromotion, if_pos hg]
  · have hg : (!σ.peer.isDead && !σ.peer.tcpStopping &&
        decide (σ.peer.tcpPromotionConnectionId < connectionId)) = true := by
      simp_all [Peer.live]
    simp only [PromotionDue, setPeer_peer, Peer.requestPromotion, if_pos hg]
    split
    · exact hbacked ‹_›
    · exact .inl rfl

theorem promotion_requests_kept_promoted : ∃ σ,
    Reaches exactAllocator 4 false .unset
      [.request (.authenticated 1), .thread .promotion ⟨true, 0⟩] σ ∧
    σ.peer.promotion.scheduled = true ∧ σ.PromotionDue := by
  have hrun : ((Transition.run (step exactAllocator 4) (.init false .unset)
      [.request (.authenticated 1), .thread .promotion ⟨true, 0⟩]).any fun σ =>
        decide (σ.peer.live σ.device = true ∧ σ.peer.promotion.scheduled = true)) = true := by
    decide +kernel
  obtain ⟨σ, hσ, hcheck⟩ := Transition.exists_run_of_any hrun
  obtain ⟨hlive, hscheduled⟩ := of_decide_eq_true hcheck
  exact ⟨σ, hσ, hscheduled,
    (promotion_requests_kept hσ (by decide +kernel) hlive).1 hscheduled⟩

/-- The device is stopped before the promotion worker gets to a request, and opened again. -/
def cancelledPromotionRun : List Action :=
  [.kernel (.accept 0 1), .request (.authenticated 1), .lifecycle .deviceDown] ++
    List.replicate 7 (.thread .stop ⟨true, 0⟩) ++ List.replicate 7 (.locked ⟨true, 0⟩) ++
    [.thread .stop ⟨true, 0⟩, .lifecycle .deviceUp]

/-- The flag outlives the cancelled work, and no later packet gets a promotion queued. -/
theorem promotion_requests_kept_fails : ∃ σ τ,
    Reaches exactAllocator 4 false .unset cancelledPromotionRun σ ∧
    Reaches exactAllocator 4 false .unset
      (cancelledPromotionRun ++ [.kernel (.accept 1 2), .request (.authenticated 2)]) τ ∧
    σ.peer.live σ.device = true ∧ σ.peer.promotion.scheduled = true ∧ ¬ σ.PromotionDue ∧
    τ.peer.tcpPromotionConnectionId = 2 ∧ ¬ τ.PromotionDue := by
  have hrun : ((Transition.run (step exactAllocator 4) (.init false .unset)
      cancelledPromotionRun).any fun σ => decide (σ.peer.live σ.device = true ∧
        σ.peer.promotion.scheduled = true ∧ ¬ σ.PromotionDue)) = true := by
    decide +kernel
  have hlater : ((Transition.run (step exactAllocator 4) (.init false .unset)
      (cancelledPromotionRun ++ [.kernel (.accept 1 2), .request (.authenticated 2)])).any fun τ =>
        decide (τ.peer.tcpPromotionConnectionId = 2 ∧ ¬ τ.PromotionDue)) = true := by
    decide +kernel
  obtain ⟨σ, hσ, hcheck⟩ := Transition.exists_run_of_any hrun
  obtain ⟨τ, hτ, hlost⟩ := Transition.exists_run_of_any hlater
  obtain ⟨hlive, hscheduled, hdue⟩ := of_decide_eq_true hcheck
  exact ⟨σ, τ, hσ, hτ, hlive, hscheduled, hdue, of_decide_eq_true hlost⟩

end State

end WgTcp
