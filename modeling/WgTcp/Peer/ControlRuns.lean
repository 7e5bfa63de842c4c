import WgTcp.Peer.ControlHolder

/-!
# Ownership along every run

Each kind of action keeps `State.Control`: what the kernel, the callbacks, the
stream workers and requests do is steady; a thread on its way to the lock
changes its own program counter; the holder moves to a point whose knowledge
it has established.
-/

namespace WgTcp

namespace State

variable {σ τ : State}

/-! ## Steady actions -/

theorem setSock_steady {s : SockId} {sk : Sock} (h : (σ.socks s).Calm sk) :
    σ.Steady (σ.setSock s sk) :=
  .of_keeps (Peer.Outside.refl _ _).toKeeps h.update

theorem setPeer_steady {p : Peer} (h : σ.peer.Keeps σ.device p) : σ.Steady (σ.setPeer p) :=
  .of_keeps h fun s => .refl (σ.socks s)

theorem kernelStep_steady {e : KernelEvent} (h : σ.kernelStep e = some τ) : σ.Steady τ := by
  obtain ⟨sk, hsk, rfl⟩ := Option.map_eq_some_iff.mp h
  apply setSock_steady
  cases e <;> simp only [Sock.kernel] at hsk <;> split at hsk <;> cases hsk
  all_goals constructor <;> simp_all [Stage.held]

theorem both_steady {p : Peer} {s : SockId} {sk : Sock} (hp : σ.peer.Keeps σ.device p)
    (hsk : (σ.socks s).Calm sk) : σ.Steady ((σ.setPeer p).setSock s sk) :=
  .of_keeps hp hsk.update

theorem stateTailStep_steady (σ : State) (s : SockId) (inbound : Bool) (tail : StateTail) :
    σ.Steady (σ.stateTailStep s inbound tail) := by
  unfold stateTailStep
  have hsk : ∀ cb, (σ.socks s).Calm { σ.socks s with callback := cb } := fun _ =>
    ⟨fun _ => rfl, rfl⟩
  split
  · exact both_steady (Peer.takeRetryWork_outside _ _).toKeeps (hsk _)
  split
  · exact both_steady (Peer.wgTcpQueueCarrierBootstrap_outside _ _ _).toKeeps (hsk _)
  split
  · exact both_steady (Peer.queueRemoval_outside _ _ _ _).toKeeps (hsk _)
  · exact setSock_steady (hsk _)

theorem callbackStep_steady {s : SockId} (h : σ.callbackStep s = some τ) : σ.Steady τ := by
  have hsk : ∀ cb, (σ.socks s).Calm { σ.socks s with callback := cb } := fun _ =>
    ⟨fun _ => rfl, rfl⟩
  have hws : (σ.socks s).Calm { (σ.socks s).originalWriteSpace with callback := none } :=
    ⟨fun _ => rfl, rfl⟩
  unfold callbackStep at h
  split at h
  · cases h
  · obtain rfl := Option.some.inj h
    rename_i cb inbound _ _
    cases cb with
    | dataReady => exact both_steady (Peer.wgTcpDataReady_outside _ _).toKeeps (hsk _)
    | writeSpace => exact both_steady (Peer.wgTcpWriteSpace_outside _ _).toKeeps (hsk _)
    | writeSpaceTail => exact setSock_steady hws
    | stateChange =>
      simp only [hookStep]
      split
      · exact setSock_steady (hsk _)
      · exact setSock_steady (hsk _)
    | stateEntered =>
      exact both_steady (Peer.stateChangeSection_outside _ _ _ _ _).toKeeps (hsk _)
    | stateTail tail => exact stateTailStep_steady σ s inbound tail
  · obtain rfl := Option.some.inj h
    rename_i cb _ _
    cases cb <;> first | exact setSock_steady (hsk _) | exact setSock_steady hws

theorem readStep_steady {A : SkbAllocator} {choice : ReadChoice}
    (h : σ.readStep A choice = some τ) : σ.Steady τ := by
  cases readStep_cases h with
  | start hidle hwork =>
    refine .of_keeps (Peer.keeps_stream _ _ _ _ _ _ (by simp) id) (fun s => .refl _) ?_
    intro _ hnone
    simp [hwork] at hnone
  | pass s n hloop =>
    refine .of_keeps (Peer.keeps_stream _ _ _ _ _ _ id id) (Sock.Calm.update ⟨fun _ => rfl, rfl⟩) ?_
    intro hidle
    simp [hloop] at hidle
  | finish captured budget =>
    refine .of_keeps (Peer.finishReader_outside _ _ _ _ _).toKeeps (fun s => .refl _) ?_
    exact fun _ _ => rfl

theorem writeStep_steady {choice : SendChoice} (h : σ.writeStep choice = some τ) :
    σ.Steady τ := by
  have keep := (Peer.Outside.refl σ.device σ.peer).toKeeps
  cases writeStep_cases h with
  | start _ hwork =>
    refine .of_keeps (Peer.keeps_stream _ _ _ _ _ _ id (by simp)) (fun s => .refl _)
      (fun h _ => h) ?_
    intro _ hnone
    simp [hwork] at hnone
  | dequeue s hpc =>
    unfold writeDequeue
    split
    · exact .of_keeps keep (fun s => .refl _) (fun h _ => h) (by simp [hpc])
    · exact .of_keeps (Peer.keeps_stream _ _ _ _ _ _ id id) (fun s => .refl _) (fun h _ => h)
        (by simp [hpc])
  | send s frame pc hpc =>
    exact .of_keeps keep (Sock.Calm.update ⟨fun _ => rfl, rfl⟩) (fun h _ => h) (by simp [hpc])
  | requeue s rest hpc =>
    exact .of_keeps (Peer.keeps_stream _ _ _ _ _ _ id id) (fun s => .refl _) (fun h _ => h)
      (by simp [hpc])
  | arm s hpc =>
    exact .of_keeps keep (Sock.Calm.update ⟨fun _ => rfl, rfl⟩) (fun h _ => h) (by simp [hpc])
  | fail s hpc =>
    exact .of_keeps (Peer.wgTcpFailExactSocket_outside _ _ _).toKeeps (fun s => .refl _)
      (fun h _ => h) (by simp [hpc])
  | finish captured =>
    exact .of_keeps (Peer.finishWriter_outside _ _ _ _).toKeeps (fun s => .refl _) (fun h _ => h)
      (fun _ _ => rfl)

theorem enqueueStep_steady (queueLimit : Nat) (σ : State) (frame : Bytes) :
    σ.Steady (σ.enqueueStep queueLimit frame) := by
  unfold enqueueStep
  split
  · rename_i p s hp _
    obtain ⟨-, -, -, -, rfl⟩ := Peer.wgTcpEnqueueFrame_ok hp
    refine both_steady ?_ ⟨fun _ => rfl, rfl⟩
    have := Peer.wgTcpScheduleWriteLocked_outside σ.device
      { σ.peer with sendQueue := σ.peer.sendQueue ++ [frame] }
    exact
      { tempPeer := this.tempPeer
        isDead := this.isDead
        dead := this.dead
        tcpStopping := this.tcpStopping
        quarantined := this.quarantined
        links := this.links
        hooks := this.hooks
        outbound := this.outbound
        inbound := this.inbound
        streamWq := this.streamWq
        reads := this.reads
        writes := this.writes
        stopped := fun h => ⟨(this.stopped h).retry, (this.stopped h).outbound,
          (this.stopped h).inbound, (this.stopped h).bootstrap, (this.stopped h).promotion⟩
        promotions := this.promotions }
  · exact setPeer_steady (Peer.Outside.refl _ _).toKeeps

/-- Endpoints are not part of what the socket lock protects. -/
theorem keeps_addressing (d : Device) (p : Peer) (a : Addressing) :
    p.Keeps d { p with addressing := a } :=
  { (Peer.Outside.refl d p).toKeeps with stopped := fun _ => ⟨id, id, id, id, id⟩ }

theorem requestStep_steady {queueLimit : Nat} {r : Request}
    (h : σ.requestStep queueLimit r = some τ) : σ.Steady τ := by
  cases r with
  | enqueue frame =>
    cases h
    exact enqueueStep_steady queueLimit σ frame
  | dial =>
    obtain ⟨-, ⟨⟩⟩ := Option.ite_none_left_eq_some.mp h
    exact setPeer_steady (Peer.requestDial_outside _ _).toKeeps
  | reconnect =>
    obtain ⟨-, ⟨⟩⟩ := Option.ite_none_left_eq_some.mp h
    exact setPeer_steady (Peer.wgTcpPeerRequestReconnectAfter_outside _ _).toKeeps
  | authenticated connectionId =>
    obtain ⟨htemp, ⟨⟩⟩ := Option.ite_none_left_eq_some.mp h
    exact setPeer_steady (Peer.requestPromotion_outside _ (by simpa using htemp) _).toKeeps
  | setEndpoint ep configured =>
    obtain ⟨-, ⟨⟩⟩ := Option.ite_none_left_eq_some.mp h
    exact setPeer_steady (keeps_addressing _ _ _)
  | learn ep connectionId =>
    obtain ⟨-, ⟨⟩⟩ := Option.ite_none_left_eq_some.mp h
    exact setPeer_steady (keeps_addressing _ _ _)
  | connect =>
    obtain ⟨hfree, ⟨⟩⟩ := Option.ite_none_left_eq_some.mp h
    refine .of_keeps (Peer.Outside.refl _ _).toKeeps (fun s => .refl _) (fun h _ => h)
      (fun h _ => h) rfl rfl ?_
    intro hin
    exact absurd (.inr (by simp [hin])) hfree

/-! ## Threads on their way to the lock -/

/-- A caller of `wg_tcp_connect` that is not inside goes on. -/
theorem setCaller_moves {p : Peer} {caller : Caller} {pc : DialPc}
    (hp : σ.peer.Keeps σ.device p) (hpc : σ.caller caller = some pc) (hne : pc ≠ .inside)
    (pc' : Option DialPc) : σ.Moves ((σ.setPeer p).setCaller caller pc') where
  peer := by simpa using hp.calm
  socks := fun s => by simpa using Sock.Calm.refl (σ.socks s)
  reader := fun h _ => by simpa using h
  writer := fun h _ => by simpa using h
  inside := by
    intro t ht
    cases caller <;> cases t <;> simp_all [Inside, setCaller, hp.tempPeer]
    all_goals rename_i c; cases c <;> simp_all [State.caller]
  waiting := fun hw s connectionId hs => by
    cases caller <;> exact hw s connectionId hs
  provisional := fun h => by
    cases caller <;> exact h.step hp.tempPeer hp.promotions fun hidle _ => hidle
  tcpStopping := fun h => by simpa [hp.tcpStopping] using h
  stays := by
    intro h
    have hnew : σ.peer.NoNewWork ((σ.setPeer p).setCaller caller pc').peer := by
      simpa using hp.stopped h
    refine .of_noNewWork hnew ?_ ?_ ?_ ?_ ?_ <;> intro hidle <;> cases caller <;>
      simp_all [setCaller]
  stop := by simp

theorem dialStep_control {caller : Caller} {pc : DialPc} (hc : σ.Control)
    (hpc : σ.caller caller = some pc) (h : σ.dialStep caller pc = some τ) : τ.Control := by
  have keep := (Peer.Outside.refl σ.device σ.peer).toKeeps
  cases pc with
  | wait =>
    simp only [dialStep] at h
    split at h
    · cases h
      exact (setCaller_moves keep hpc (by simp) _).control (by simp) hc
    · obtain ⟨hfree, ⟨⟩⟩ := Option.ite_none_right_eq_some.mp h
      refine ((setCaller_moves keep hpc (by simp) (some .inside)).hold
        (.connectGate caller)).acquire rfl trivial ?_ ?_ hc
      · cases caller <;> rfl
      · intro _ hr
        have hretry := hc.stop.retry (by omega)
        have hout := hc.stop.outbound (by omega)
        cases caller <;> simp_all [State.caller, Holder.passing]
  | inside => cases h
  | greet s =>
    cases h
    exact (setCaller_moves (Peer.wgTcpQueueCarrierBootstrap_outside _ _ s).toKeeps hpc (by simp)
      _).control (by simp) hc
  | failed =>
    cases h
    cases caller with
    | admin => exact (setCaller_moves keep hpc (by simp) _).control (by simp) hc
    | retry =>
      exact (setCaller_moves (Peer.scheduleRetry_outside _ _).toKeeps hpc (by simp) _).control
        (by simp) hc
    | outbound =>
      exact (setCaller_moves (Peer.scheduleRetry_outside _ _).toKeeps hpc (by simp) _).control
        (by simp) hc

/-- A step outside the lock that changes the program counter of one thread, which is not inside
and, if idle, has work to do. -/
theorem moves_of_outside (hp : σ.peer.Outside σ.device τ.peer) (hsocks : τ.socks = σ.socks)
    (hreader : τ.reader = σ.reader) (hwriter : τ.writer = σ.writer) (hstop : τ.stop = σ.stop)
    (hinside : ∀ t, σ.Inside t → τ.Inside t)
    (hwaiting : ∀ s connectionId, τ.promotion = .wait s connectionId →
      σ.promotion = .wait s connectionId)
    (hpromotion : σ.promotion = .idle → σ.peer.promotion.work = false → τ.promotion = .idle)
    (hstays : σ.peer.NoNewWork τ.peer → σ.Stays τ) : σ.Moves τ where
  peer := hp.calm
  socks := fun s => by rw [hsocks]; exact .refl _
  reader := fun h _ => hreader.trans h
  writer := fun h _ => hwriter.trans h
  inside := hinside
  waiting := fun hw s connectionId hs => hsocks ▸ hw s connectionId (hwaiting s connectionId hs)
  provisional := fun h => h.step hp.tempPeer hp.promotions hpromotion
  tcpStopping := fun h => hp.tcpStopping.trans h
  stays := fun h => hstays (hp.stopped h)
  stop := hstop

theorem retryStep_control (hc : σ.Control) (h : σ.retryStep = some τ) : τ.Control := by
  unfold retryStep at h
  split at h
  · rename_i hidle
    obtain ⟨hwork, ⟨⟩⟩ := Option.ite_none_right_eq_some.mp h
    have hp := (Peer.takeRetryWork_outside σ.device σ.peer).trans (Peer.beginRetry_outside _ _)
    refine Moves.control (moves_of_outside hp rfl rfl rfl rfl ?_ (fun _ _ h => h) (fun h _ => h) ?_)
      rfl hc
    · intro t ht
      cases t with
      | dial caller => cases caller <;> simp_all [Inside]
      | provisional => exact hp.tempPeer.trans ht
      | _ => exact ht
    · intro hnew
      exact { Stays.of_noNewWork (τ := σ.setPeer _) hnew id id id id id with
        retry := fun h => by simp [hwork] at h }
  · rename_i pc hpc
    exact dialStep_control hc (σ.caller_retry.trans hpc) h

theorem inside_of_outbound {p : Peer} {pc : OutboundPc} (hp : p.tempPeer = σ.peer.tempPeer)
    (hne : σ.outbound ≠ .inside) (hdial : σ.outbound ≠ .dial .inside) (t : Holding)
    (ht : σ.Inside t) : { σ.setPeer p with outbound := pc }.Inside t := by
  cases t with
  | dial caller => cases caller <;> simp_all [Inside]
  | outbound => exact absurd ht hne
  | provisional => exact hp.trans ht
  | _ => exact ht

/-- The outbound removal worker outside the lock. -/
theorem outbound_moves {p : Peer} (pc : OutboundPc) (hp : σ.peer.Outside σ.device p)
    (hne : σ.outbound ≠ .inside) (hdial : σ.outbound ≠ .dial .inside)
    (hidle : σ.outbound = .idle → σ.peer.outboundRemove.work = true) :
    σ.Moves { σ.setPeer p with outbound := pc } := by
  refine moves_of_outside hp rfl rfl rfl rfl (inside_of_outbound hp.tempPeer hne hdial)
    (fun _ _ h => h) (fun h _ => h) ?_
  intro hnew
  exact { Stays.of_noNewWork (τ := σ.setPeer p) hnew id id id id id with
    outbound := fun h => by simp [hidle h.1] at h }

theorem outboundPostStep_control (hc : σ.Control) {post : OutboundPost}
    (hpc : σ.outbound = .post post) : (σ.outboundPostStep post).Control := by
  have keep := Peer.Outside.refl σ.device σ.peer
  have moves {p : Peer} (pc : OutboundPc) (hp : σ.peer.Outside σ.device p) :=
    outbound_moves pc hp (by simp [hpc]) (by simp [hpc]) (by simp [hpc])
  unfold outboundPostStep
  split
  · exact (moves .idle keep).control rfl hc
  split
  · exact (moves .idle (Peer.wgTcpPeerRequestReconnectAfter_outside _ _)).control rfl hc
  split
  · exact (moves (.dial .wait) keep).control rfl hc
  split
  · exact (moves .idle (Peer.scheduleRetry_outside _ _)).control rfl hc
  · exact (moves .idle keep).control rfl hc

theorem outboundStep_control (hc : σ.Control) (h : σ.outboundStep = some τ) : τ.Control := by
  unfold outboundStep at h
  split at h
  · rename_i hpc
    obtain ⟨hwork, ⟨⟩⟩ := Option.ite_none_right_eq_some.mp h
    exact (outbound_moves _ (Peer.takeOutboundWork_outside _ _) (by simp [hpc]) (by simp [hpc])
      (fun _ => hwork)).control rfl hc
  · rename_i retryNeeded hpc
    obtain ⟨-, ⟨⟩⟩ := Option.ite_none_right_eq_some.mp h
    exact (outbound_moves _ (Peer.takeRetryWork_outside _ _) (by simp [hpc]) (by simp [hpc])
      (by simp [hpc])).control rfl hc
  · rename_i retryNeeded hpc
    obtain ⟨-, ⟨⟩⟩ := Option.ite_none_right_eq_some.mp h
    refine ((outbound_moves .inside (Peer.Outside.refl _ _) (by simp [hpc]) (by simp [hpc])
      (by simp [hpc])).hold (.outboundView retryNeeded)).acquire rfl trivial rfl ?_ hc
    intro _ hr
    have := hc.stop.outbound (by omega)
    simp [hpc] at this
  · cases h
  · cases h
    exact outboundPostStep_control hc ‹_›
  · exact dialStep_control hc (by simpa using ‹_›) h

theorem inboundStep_control (hc : σ.Control) (h : σ.inboundStep = some τ) : τ.Control := by
  have moves {p : Peer} (pc : LockPc) (hp : σ.peer.Outside σ.device p)
      (hne : σ.inbound ≠ .inside) (hidle : σ.inbound = .idle → σ.peer.inboundRemove.work = true) :
      σ.Moves { σ.setPeer p with inbound := pc } := by
    refine moves_of_outside hp rfl rfl rfl rfl ?_ (fun _ _ h => h) (fun h _ => h) ?_
    · intro t ht
      cases t with
      | dial caller => cases caller <;> exact ht
      | inbound => exact absurd ht hne
      | provisional => exact hp.tempPeer.trans ht
      | _ => exact ht
    · intro hnew
      exact { Stays.of_noNewWork (τ := σ.setPeer p) hnew id id id id id with
        inbound := fun h => by simp [hidle h.1] at h }
  unfold inboundStep at h
  split at h
  · rename_i hpc
    obtain ⟨hwork, h⟩ := Option.ite_none_right_eq_some.mp h
    split at h
    · rename_i htemp
      cases h
      have hp := Peer.takeInboundWork_outside σ.device σ.peer
      refine (setPeer_steady (p := { σ.peer.takeInboundWork with isDead := true }) ?_).control hc
      exact { hp.toKeeps with
        isDead := fun _ => rfl, dead := fun hf => absurd (htemp.symm.trans hf) (fun h => by cases h)
        stopped := fun hs => { hp.stopped hs with } }
    · cases h
      exact (moves .wait (Peer.takeInboundWork_outside _ _) (by simp [hpc])
        (fun _ => hwork)).control rfl hc
  · rename_i hpc
    obtain ⟨-, ⟨⟩⟩ := Option.ite_none_right_eq_some.mp h
    refine ((moves .inside (Peer.Outside.refl _ _) (by simp [hpc]) (by simp [hpc])).hold
      .inboundView).acquire rfl trivial rfl ?_ hc
    intro _ hr
    have := hc.stop.inbound (by omega)
    simp [hpc] at this
  · cases h

theorem bootstrapStep_control (hc : σ.Control) (h : σ.bootstrapStep = some τ) : τ.Control := by
  have moves {p : Peer} (pc : LockPc) (hp : σ.peer.Outside σ.device p)
      (hne : σ.bootstrap ≠ .inside) (hidle : σ.bootstrap = .idle → σ.peer.tcpBootstrapWork = true) :
      σ.Moves { σ.setPeer p with bootstrap := pc } := by
    refine moves_of_outside hp rfl rfl rfl rfl ?_ (fun _ _ h => h) (fun h _ => h) ?_
    · intro t ht
      cases t with
      | dial caller => cases caller <;> exact ht
      | bootstrap => exact absurd ht hne
      | provisional => exact hp.tempPeer.trans ht
      | _ => exact ht
    · intro hnew
      exact { Stays.of_noNewWork (τ := σ.setPeer p) hnew id id id id id with
        bootstrap := fun h => by simp [hidle h.1] at h }
  unfold bootstrapStep at h
  split at h
  · rename_i hpc
    obtain ⟨hwork, ⟨⟩⟩ := Option.ite_none_right_eq_some.mp h
    exact (moves .wait (Peer.takeBootstrapWork_outside _ _) (by simp [hpc])
      (fun _ => hwork)).control rfl hc
  · rename_i hpc
    obtain ⟨-, ⟨⟩⟩ := Option.ite_none_right_eq_some.mp h
    refine ((moves .inside (Peer.Outside.refl _ _) (by simp [hpc]) (by simp [hpc])).hold
      .bootstrapTake).acquire rfl trivial rfl ?_ hc
    intro ht hr
    have := hc.stop.bootstrap ht (by omega)
    simp [hpc] at this
  · cases h

theorem promotion_moves {p : Peer} (pc : PromotionPc) (hp : σ.peer.Outside σ.device p)
    (hpc : ∀ s connectionId, pc ≠ .wait s connectionId) (hne : σ.promotion ≠ .inside)
    (hidle : σ.promotion = .idle → σ.peer.promotion.work = true) :
    σ.Moves { σ.setPeer p with promotion := pc } := by
  refine moves_of_outside hp rfl rfl rfl rfl ?_ (fun s id h => absurd h (hpc s id))
    (fun h hnone => by simp [hidle h] at hnone) ?_
  · intro t ht
    cases t with
    | dial caller => cases caller <;> exact ht
    | promotion => exact absurd ht hne
    | provisional => exact hp.tempPeer.trans ht
    | _ => exact ht
  · intro hnew
    exact { Stays.of_noNewWork (τ := σ.setPeer p) hnew id id id id id with
      promotion := fun h => by simp [hidle h.1] at h }

theorem promotionStep_control {choice : Choice} (hc : σ.Control)
    (h : σ.promotionStep choice = some τ) : τ.Control := by
  have keep := Peer.Outside.refl σ.device σ.peer
  unfold promotionStep at h
  split at h
  · rename_i hpc
    obtain ⟨hwork, ⟨⟩⟩ := Option.ite_none_right_eq_some.mp h
    exact (promotion_moves .take (Peer.takePromotionWork_outside _ _) (by simp) (by simp [hpc])
      (fun _ => hwork)).control rfl hc
  · rename_i hpc
    cases h
    exact (promotion_moves _ (Peer.takePromotion_outside _ _) (by intro s id; split <;> simp)
      (by simp [hpc]) (by simp [hpc])).control rfl hc
  · rename_i connectionId hpc
    have hm := promotion_moves .take keep (by simp) (by simp [hpc]) (by simp [hpc])
    simp only at h
    split at h
    · cases h
      exact hm.control rfl hc
    · obtain ⟨hstage, ⟨⟩⟩ := Option.ite_none_right_eq_some.mp h
      refine Moves.control (σ := σ) { hm with
        socks := Sock.Calm.update ⟨by simp [hstage, Stage.held], rfl⟩
        inside := ?_, waiting := ?_, provisional := ?_, stays := fun hs => ?_ } rfl hc
      · intro t ht
        have := hm.inside t ht
        cases t with
        | dial caller => cases caller <;> exact this
        | promotion => simp [Inside, hpc] at ht
        | _ => exact this
      · rintro - s id ⟨⟩
        simp
      · intro h ht
        have := (h ht).1
        simp [hpc] at this
      · exact { hm.stays hs with promotion := fun h => by simp [hpc] at h }
  · rename_i s connectionId hpc
    obtain ⟨-, ⟨⟩⟩ := Option.ite_none_right_eq_some.mp h
    refine ((promotion_moves .inside keep (by simp) (by simp [hpc]) (by simp [hpc])).hold
      (.promoteCheck s connectionId)).acquire rfl (hc.waiting s connectionId hpc) rfl ?_ hc
    intro ht hr
    have := hc.stop.promotion ht (by omega)
    simp [hpc] at this
  · cases h

/-! ## Stop -/

/-- The stop goes on; nobody else moves, and the lock is where it was. -/
theorem stop_control {p : Peer} {pc : StopPc} (hc : σ.Control) (hp : σ.peer.Calm p)
    (hne : σ.stop ≠ .inside) (hstop : { σ.setPeer p with stop := pc }.StopOk) :
    { σ.setPeer p with stop := pc }.Control := by
  have hcalm : σ.Calm { σ.setPeer p with stop := pc } :=
    ⟨hp, fun s => .refl _, fun h _ => h, fun h _ => h⟩
  refine ⟨hcalm.custody hc.custody, ?_, hc.waiting, ?_, hstop⟩
  rotate_left
  · exact hc.provisional.step hp.tempPeer hp.promotions fun h _ => h
  intro k hk
  obtain ⟨hok, hin⟩ := hc.holder k hk
  refine ⟨hcalm.holder hok, ?_⟩
  generalize k.thread = t at hin ⊢
  cases t with
  | dial caller => cases caller <;> exact hin
  | stop => exact absurd hin hne
  | provisional => exact hp.tempPeer.trans hin
  | _ => exact hin

theorem calm_stopClaim (p : Peer) :
    p.Calm (if p.tempPeer then p.destroyClaim else p.stopClaim) := by
  split
  · exact ⟨rfl, fun _ => rfl, rfl, rfl, rfl, fun _ => .inl rfl, .inl, .inl, fun _ _ => rfl,
      fun _ _ => rfl, fun _ => id⟩
  · exact ⟨rfl, id, rfl, rfl, rfl, fun _ => .inr (.inl rfl), .inl, .inl, fun _ _ => rfl,
      fun _ _ => rfl, fun _ => id⟩

theorem calm_stopFinish {p : Peer} (h : p.tcpStopping = true) : p.Calm (p.stopFinish false) :=
  ⟨rfl, id, rfl, rfl, rfl, fun _ => .inr (.inl h), .inl, .inl, fun _ h => (by cases h),
    fun _ h => (by cases h), fun _ => id⟩

theorem stopBegin_control (hc : σ.Control) (hne : σ.stop ≠ .inside) :
    { σ.setPeer (if σ.peer.tempPeer then σ.peer.destroyClaim else σ.peer.stopClaim) with
      stop := .cancelRetry }.Control := by
  refine stop_control hc (calm_stopClaim σ.peer) hne ?_
  have :
      (if σ.peer.tempPeer then σ.peer.destroyClaim else σ.peer.stopClaim).tcpStopping = true := by
    split <;> rfl
  constructor <;> simp [StopPc.rank, this]

theorem stopStepOutside_control (hc : σ.Control) (h : σ.stopStepOutside = some τ) :
    τ.Control := by
  have hs := hc.stop
  unfold stopStepOutside at h
  split at h <;> rename_i hpc
  · cases h
    exact stopBegin_control hc (by simp [hpc])
  · cases h
    exact stopBegin_control hc (by simp [hpc])
  · cases h
    exact stopBegin_control hc (by simp [hpc])
  · obtain ⟨hidle, ⟨⟩⟩ := Option.ite_none_right_eq_some.mp h
    have hr : 0 < σ.stop.rank := by simp [hpc, StopPc.rank]
    refine stop_control hc (Peer.takeRetryWork_outside σ.device _).calm (by simp [hpc]) ?_
    refine ⟨fun _ => hs.stopping hr, fun _ => ⟨hidle, rfl⟩, ?_, ?_, ?_, ?_, ?_, ?_⟩ <;>
      simp [StopPc.rank]
  · obtain ⟨hidle, ⟨⟩⟩ := Option.ite_none_right_eq_some.mp h
    have hr : 1 < σ.stop.rank := by simp [hpc, StopPc.rank]
    refine stop_control hc (Peer.takeOutboundWork_outside σ.device _).calm (by simp [hpc]) ?_
    refine ⟨fun _ => hs.stopping (by omega), fun _ => hs.retry hr, fun _ => ⟨hidle, rfl⟩,
      ?_, ?_, ?_, ?_, ?_⟩ <;> simp [StopPc.rank]
  · obtain ⟨hidle, ⟨⟩⟩ := Option.ite_none_right_eq_some.mp h
    have hr : 2 < σ.stop.rank := by simp [hpc, StopPc.rank]
    refine stop_control hc (Peer.takeInboundWork_outside σ.device _).calm (by simp [hpc]) ?_
    refine ⟨fun _ => hs.stopping (by omega), fun _ => hs.retry (by omega), fun _ => hs.outbound hr,
      fun _ => ⟨hidle, rfl⟩, ?_, ?_, ?_, ?_⟩ <;> cases htemp : σ.peer.tempPeer <;>
      simp [StopPc.rank, Peer.takeInboundWork, htemp]
  · obtain ⟨hidle, ⟨⟩⟩ := Option.ite_none_right_eq_some.mp h
    have hr : 3 < σ.stop.rank := by simp [hpc, StopPc.rank]
    refine stop_control hc (Peer.takeBootstrapWork_outside σ.device _).calm (by simp [hpc]) ?_
    refine ⟨fun _ => hs.stopping (by omega), fun _ => hs.retry (by omega),
      fun _ => hs.outbound (by omega), fun _ => hs.inbound hr, fun _ _ => ⟨hidle, rfl⟩,
      ?_, ?_, ?_⟩ <;> simp [StopPc.rank]
  · obtain ⟨hidle, ⟨⟩⟩ := Option.ite_none_right_eq_some.mp h
    have hr : 4 < σ.stop.rank := by simp [hpc, StopPc.rank]
    refine stop_control hc (Peer.takePromotionWork_outside σ.device _).calm (by simp [hpc]) ?_
    refine ⟨fun _ => hs.stopping (by omega), fun _ => hs.retry (by omega),
      fun _ => hs.outbound (by omega), fun _ => hs.inbound (by omega),
      fun ht _ => hs.bootstrap ht hr, fun _ _ => ⟨hidle, rfl⟩, ?_, ?_⟩ <;> simp [StopPc.rank]
  · obtain ⟨hfree, ⟨⟩⟩ := Option.ite_none_right_eq_some.mp h
    have hr : 5 < σ.stop.rank := by simp [hpc, StopPc.rank]
    refine ⟨hc.custody.congr rfl rfl, ?_, hc.waiting, hc.provisional, ?_⟩
    · rintro k ⟨⟩
      cases htemp : σ.peer.tempPeer with
      | false => exact ⟨trivial, rfl⟩
      | true => exact ⟨⟨rfl, ⟨rfl, htemp⟩, .inr (.inl (hs.stopping (by omega)))⟩, rfl⟩
    · refine ⟨fun _ => hs.stopping (by omega), fun _ => hs.retry (by omega),
        fun _ => hs.outbound (by omega), fun _ => hs.inbound (by omega),
        fun ht _ => hs.bootstrap ht (by omega), fun ht _ => hs.promotion ht hr, ?_, ?_⟩ <;>
        simp [StopPc.rank]
  · cases h
  · cases h
    have hr : 6 < σ.stop.rank := by simp [hpc, StopPc.rank]
    obtain rfl := hs.finish _ hpc
    refine stop_control hc (calm_stopFinish (hs.stopping (by omega))) (by simp [hpc]) ?_
    exact ⟨fun _ => hs.stopping (by omega), fun _ => hs.retry (by omega),
      fun _ => hs.outbound (by omega), fun _ => hs.inbound (by omega),
      fun ht _ => hs.bootstrap ht (by omega), fun ht _ => hs.promotion ht (by omega),
      by simp, fun ht _ => hs.stopped ht hr⟩

theorem threadStep_control {choice : Choice} {t : Thread} (hc : σ.Control)
    (h : σ.threadStep choice t = some τ) : τ.Control := by
  cases t with
  | retry => exact retryStep_control hc h
  | admin =>
    obtain ⟨pc, hpc, h⟩ := Option.bind_eq_some_iff.mp h
    exact dialStep_control hc (σ.caller_admin.trans hpc) h
  | outbound => exact outboundStep_control hc h
  | inbound => exact inboundStep_control hc h
  | bootstrap => exact bootstrapStep_control hc h
  | promotion => exact promotionStep_control hc h
  | stop => exact stopStepOutside_control hc h

/-! ## Device and peer lifetime -/

/-- Once a configured peer is stopped, only a connect that leaves again may be under way. -/
theorem control_of_stopped (hc : σ.Control) (hpc : σ.stop = .done) (htemp : σ.peer.tempPeer = false)
    (hcustody : τ.Custody) (hlock : τ.lock = σ.lock) (hadmin : τ.admin = σ.admin)
    (hpromotion : τ.promotion = σ.promotion) (htemp' : τ.peer.tempPeer = false) (hstop : τ.StopOk) :
    τ.Control := by
  have hr : 6 < σ.stop.rank := by
    rw [hpc]
    decide
  refine ⟨hcustody, ?_, ?_, fun ht => by simp [htemp'] at ht, hstop⟩
  · intro k hk
    rw [hlock] at hk
    have hpass := (hc.stop.stopped htemp hr).2 k hk
    have hin := (hc.holder k hk).2
    cases k with
    | connectGate caller =>
      cases caller <;> simp_all [Holder.passing, Holder.Ok, Holder.thread, Inside]
    | connectReturn caller =>
      cases caller <;> simp_all [Holder.passing, Holder.Ok, Holder.thread, Inside]
    | _ => cases hpass
  · intro s connectionId hs
    rw [hpromotion, (hc.stop.promotion htemp (by omega)).1] at hs
    cases hs

theorem deviceUp_control (hc : σ.Control) (hpc : σ.stop = .done) (htemp : σ.peer.tempPeer = false) :
    { σ.setPeer σ.peer.wgOpen with
      device := { σ.device with tcpCleanupScheduled := true, netifRunning := true }
      stop := if σ.peer.tcpTeardownQuarantined then .done else .idle }.Control := by
  have hq := hc.custody.quarantined
  refine control_of_stopped hc hpc htemp ?_ rfl rfl rfl (by simp [Peer.wgOpen, hq, htemp]) ?_
  · have hp : σ.peer.wgOpen.links = σ.peer.links ∧ σ.peer.wgOpen.hooks = σ.peer.hooks ∧
        σ.peer.wgOpen.outboundRemove = σ.peer.outboundRemove ∧
        σ.peer.wgOpen.inboundRemove = σ.peer.inboundRemove ∧
        σ.peer.wgOpen.tcpTeardownQuarantined = false := by
      simp [Peer.wgOpen, hq]
    obtain ⟨hl, hh, ho, hi, hq⟩ := hp
    exact
      { links := hl ▸ hc.custody.links
        hooks := by
          rcases hc.custody.hooks with ⟨h, u⟩ | ⟨s, inbound, l, h, u⟩
          · exact .inl ⟨hh.trans h, u⟩
          · exact .inr ⟨s, inbound, hl.trans l, hh.trans h, u⟩
        claimOutbound := ho ▸ hc.custody.claimOutbound
        claimInbound := hi ▸ hc.custody.claimInbound
        quarantined := hq }
  · constructor <;> simp [hq, StopPc.rank]

theorem removePeer_control (hc : σ.Control) (hpc : σ.stop = .done)
    (htemp : σ.peer.tempPeer = false) : (σ.setPeer σ.peer.peerMakeDead).Control := by
  have hs := hc.stop
  have hr : 6 < σ.stop.rank := by
    rw [hpc]
    decide
  refine control_of_stopped hc hpc htemp ?_ rfl rfl rfl htemp ?_
  · exact
      { links := hc.custody.links
        hooks := by
          rcases hc.custody.hooks with ⟨h, u⟩ | ⟨s, inbound, l, h, u⟩
          · exact .inl ⟨h, u⟩
          · exact .inr ⟨s, inbound, l, h, u⟩
        claimOutbound := fun h => (by cases h)
        claimInbound := fun h => (by cases h)
        quarantined := hc.custody.quarantined }
  · exact ⟨fun _ => rfl, fun _ => ⟨(hs.retry (by omega)).1, rfl⟩,
      fun _ => ⟨(hs.outbound (by omega)).1, rfl⟩, fun _ => ⟨(hs.inbound (by omega)).1, rfl⟩,
      fun ht _ => hs.bootstrap ht (by omega), fun ht _ => hs.promotion ht (by omega),
      hs.finish, fun ht _ => hs.stopped ht hr⟩

theorem install_control {s : SockId} (hc : σ.Control) (htemp : σ.peer.tempPeer = true)
    (hnone : σ.peer.links = .none) (hpc : σ.stop = .idle)
    (hstage : (σ.socks s).stage ≠ .promoting) :
    (((σ.setPeer (σ.peer.install s)).setSock s { σ.socks s with stage := .owned }).hold
      (.installSetup s)).Control := by
  have hhooks := (hc.custody.unhooked hnone).hooks
  have hlinks : (σ.peer.install s).links = .on s true := by
    simp [Peer.install, hnone, Links.none, Links.on]
  have hp : σ.peer.Under (σ.peer.install s) := by
    simp [Peer.under_iff, Peer.noNewWork_iff, Peer.install]
  have hnew : (σ.peer.install s).hooks = .none := by simp [Peer.install, hhooks, Hooks.none]
  refine ⟨custody_publish hc.custody hnone hp hlinks hnew _, ?_,
    waiting_setSock hc.waiting (.inl hstage),
    hc.provisional.step rfl hp.promotions fun h _ => h, ?_⟩
  · rintro k ⟨⟩
    exact ⟨⟨hlinks, hnew⟩, htemp⟩
  · constructor <;> simp [hpc, StopPc.rank]

theorem lifecycleStep_control {l : Lifecycle} (hc : σ.Control) (h : σ.lifecycleStep l = some τ) :
    τ.Control := by
  have keep := (Peer.Outside.refl σ.device σ.peer).toKeeps
  cases l with
  | deviceDown =>
    cases h
    refine Steady.control (σ := σ) ?_ hc
    exact .of_keeps keep fun s => .refl _
  | deviceUp =>
    obtain ⟨⟨hpc, -, -, htemp⟩, ⟨⟩⟩ := Option.ite_none_right_eq_some.mp h
    exact deviceUp_control hc hpc htemp
  | removePeer =>
    obtain ⟨⟨hpc, htemp⟩, ⟨⟩⟩ := Option.ite_none_right_eq_some.mp h
    exact removePeer_control hc hpc htemp
  | install s =>
    simp only [lifecycleStep] at h
    split at h
    · rename_i hstage
      obtain ⟨⟨htemp, hpc, -, hnone, -⟩, ⟨⟩⟩ := Option.ite_none_right_eq_some.mp h
      exact install_control hc htemp hnone hpc (by simp [hstage])
    · cases h
  | handover s =>
    obtain ⟨⟨htemp, -⟩, ⟨⟩⟩ := Option.ite_none_right_eq_some.mp h
    refine ((setPeer_steady keep).hold (.handoverClaim s)).acquire rfl trivial htemp ?_ hc
    simp [htemp]

/-! ## Every run -/

theorem step_control {A : SkbAllocator} {queueLimit : Nat} {a : Action} (hc : σ.Control)
    (h : σ.step A queueLimit a = some τ) : τ.Control := by
  cases a with
  | kernel e => exact (kernelStep_steady h).control hc
  | callback s => exact (callbackStep_steady h).control hc
  | read choice => exact (readStep_steady h).control hc
  | write choice => exact (writeStep_steady h).control hc
  | request r => exact (requestStep_steady h).control hc
  | thread t choice => exact threadStep_control hc h
  | locked choice =>
    obtain ⟨k, hk, h⟩ := Option.bind_eq_some_iff.mp h
    exact (lockedStep_cases hc hk h).control hc hk
  | lifecycle l => exact lifecycleStep_control hc h

theorem Reaches.control {A : SkbAllocator} {queueLimit : Nat} {tempPeer : Bool}
    {addressing : Addressing} {as : List Action}
    (h : Reaches A queueLimit tempPeer addressing as σ) :
    σ.Control :=
  Transition.run_invariant (fun _ _ _ hc hs => step_control hc hs)
    (control_init tempPeer addressing)
    h

end State

end WgTcp
